import YangSubscriptions.Proofs.Json.Text
import YangSubscriptions.Proofs.Restconf.Connections
import YangSubscriptions.Proofs.Restconf.Paths
import YangSubscriptions.Proofs.Service.Catalog
import YangSubscriptions.Proofs.Text.Blank

/-!
# Filters over RESTCONF

A filter is put to the resource of its name and deleted there, and in between subscriptions can refer to it. That works
for every name that is a segment of a path, whatever else is in it, and for no other (`addressable_iff`): the path is
decoded before it is cut at its slashes, so a name with a slash is not found in it again.
-/

namespace YangSubscriptions

/-- An object is read from the body that is its text. -/
theorem RequestBody.parse_render {members : List (String × Json)} (hwithin : (Json.object members).Within Json.maxDepth)
    (hlegible : (Json.object members).Legible) :
    parse .json (Json.object members).render = .ok (.json (.object members)) := by
  have hparse := Json.parse_render hwithin hlegible
  have htrim : Text.trim (Json.object members).render ≠ "" := by
    intro h
    obtain ⟨g, g', hg, hg', hsplit⟩ := Text.exists_trimChars (Json.object members).render.toList
    have hnil : Text.trimChars (Json.object members).render.toList = [] := by simpa [Text.trim] using h
    rw [hnil, List.append_nil] at hsplit
    have hbrace : '\x7b' ∈ (Json.object members).render.toList := by simp [Json.render, Json.chars]
    exact absurd (hg.append hg' _ (hsplit ▸ hbrace)) (by decide)
  rw [parse, if_neg htrim, hparse]
  rfl

namespace FilterEntry

/-- A stored filter is not the name of one. -/
theorem own_of_ofInput {i : Input} {e : FilterEntry} (h : ofInput i = .ok e) (n : String) : e.filter ≠ .named n := by
  obtain ⟨name, -, h⟩ := exists_ok_of_bind h
  split at h
  · cases h
  · obtain ⟨o, -, h⟩ := exists_ok_of_bind h
    unfold ofParts at h
    split at h
    · cases h
    · cases h
    · rename_i f hown
      cases h
      exact hown n

theorem own_of_ofBody {s : Schema} {body : RequestBody} {e : FilterEntry} (h : ofBody s body = .ok (some e)) (n : String) :
    e.filter ≠ .named n := by
  cases body with
  | blank => cases h
  | json v =>
    obtain ⟨e', h, heq⟩ := exists_ok_of_map h
    cases heq
    obtain ⟨entry, -, h⟩ := exists_ok_of_bind h
    split at h
    · exact own_of_ofInput h n
    · cases h
  | xml element =>
    obtain ⟨e', h, heq⟩ := exists_ok_of_map h
    cases heq
    unfold ofXml at h
    split at h
    · exact own_of_ofInput h n
    · cases h

/-- An entry with that name, whose filter lets everything pass. -/
def passingAll (name : String) : List (String × Json) :=
  [("name", .string name), ("stream-subtree-filter", .object [])]

theorem ofBody_passingAll (s : Schema) (name : String) :
    ofBody s (.json (.object (passingAll name))) = .ok (some ⟨name, .subtree ⟨[]⟩⟩) := rfl

end FilterEntry

/-! ## Requests about filters -/

namespace Server

variable {s : Server} {r : HttpRequest}

def filters (s : Server) : Table String NamedFilter := s.service.streams.filters

theorem filters_withService (s : Server) (result : HttpResponse × Service) :
    (s.withService result).2.filters = result.2.streams.filters := rfl

/-- A request is answered along its route; a connection that it opens changes neither root nor service. -/
theorem request_of_route {there : Route} (hroute : Route.ofPath? s.root (pathOnly r.path) = some there)
    (hmethod : r.method ≠ "HEAD") (port : Nat) :
    s.request port r = (s.connect port).2.route (s.connect port).1 r.method r there := by
  have hroot : (s.connect port).2.root = s.root := by
    unfold connect
    split <;> rfl
  rw [← hroot] at hroute
  unfold request
  generalize s.connect port = connected at hroute
  obtain ⟨session, t⟩ := connected
  simp only [hroute, hmethod, if_false]

theorem request_put (hmethod : r.method = "PUT") {path : String} (htarget : r.Targets s .data path) (port : Nat) :
    s.request port r = (s.connect port).2.withService (put s.service path r) := by
  obtain ⟨raw, hroute, hraw⟩ := htarget
  rw [request_of_route hroute (by rw [hmethod]; decide)]
  simp [route, hmethod, hraw, service_connect]

theorem request_delete (hmethod : r.method = "DELETE") {path : String} (htarget : r.Targets s .data path) (port : Nat) :
    s.request port r = (s.connect port).2.withService (delete s.service path r) := by
  obtain ⟨raw, hroute, hraw⟩ := htarget
  rw [request_of_route hroute (by rw [hmethod]; decide)]
  simp [route, hmethod, hraw, service_connect]

theorem request_post (hmethod : r.method = "POST") {name : String} (htarget : r.Targets s .operation name) (port : Nat) :
    ∃ t : Server, s.request port r = t.withService (invoke s.service (s.connect port).1 name r) := by
  obtain ⟨raw, hroute, hraw⟩ := htarget
  rw [request_of_route hroute (by rw [hmethod]; decide)]
  exact ⟨_, by simp [route, hmethod, hraw, service_connect]; rfl⟩

end Server

namespace HttpRequest

variable (r : HttpRequest) (s : Server) (name : String)

/-- It puts that filter to the resource of that name, where it is valid. -/
structure Puts (f : StreamFilter) : Prop where
  method : r.method = "PUT"
  target : r.Targets s .data (filterPath name)
  body : ∃ body, RequestBody.parse r.bodyEncoding r.body = .ok body ∧
    FilterEntry.ofBody s.service.schema body = .ok (some ⟨name, f⟩)
  valid : f.resolved.validate s.service.schema = .ok ()

/-- It asks to establish a subscription with the filter of that name, and all else that it asks for can be had. -/
structure Establishes : Prop where
  method : r.method = "POST"
  target : r.Targets s .operation Operation.establish.name
  body : ∃ q stream revision, Request.parse s.service.schema .establish r.bodyEncoding r.body = .ok (.establish q) ∧
    q.filter = some (.named name) ∧ s.service.Admits q stream revision

/-- It deletes the resource of that name. -/
structure Deletes : Prop where
  method : r.method = "DELETE"
  target : r.Targets s .data (filterPath name)

end HttpRequest

/-- What is expected of a name for filters. -/
structure Addressable (name : String) : Prop where
  /-- A valid filter that is put to the resource is stored under the name, as a new one if there was none, and all others
  stay as they are. -/
  put : ∀ (s : Server) (port : Nat) (r : HttpRequest) (f : StreamFilter), r.Puts s name f →
    (s.request port r).1 = .response (.bare (if s.filters.contains name then 204 else 201)) ∧
    (s.request port r).2.service.schema = s.service.schema ∧
    ∀ n, (s.request port r).2.filters.get? n = if n = name then some ⟨f, f.resolved⟩ else s.filters.get? n
  /-- As long as it is stored and valid, subscriptions are established with it. -/
  establish : ∀ (s : Server) (port : Nat) (r : HttpRequest) (x : NamedFilter), s.filters.get? name = some x →
    x.resolved.validate s.service.schema = .ok () → r.Establishes s name →
    ∃ reply sub, (s.request port r).1 =
        .response (.payload 200 (Server.invokeEncoding r) (EstablishReply.encode reply (Server.invokeEncoding r))) ∧
      (s.request port r).2.service.registry.lookup reply.id = some sub ∧ sub.resolved = x.resolved
  /-- When the resource is deleted the filter is gone, and no other is. -/
  delete : ∀ (s : Server) (port : Nat) (r : HttpRequest), s.filters.contains name = true → r.Deletes s name →
    (s.request port r).1 = .response (.bare 204) ∧
    ∀ n, (s.request port r).2.filters.get? n = if n = name then none else s.filters.get? n

namespace Server

variable {s : Server} {r : HttpRequest} {name : String}

theorem put_eq {s : Service} {path : String} {f : StreamFilter} {body : RequestBody}
    (hpath : DataResource.ofPath path = .ok (.filter name)) (hbody : RequestBody.parse r.bodyEncoding r.body = .ok body)
    (hentry : FilterEntry.ofBody s.schema body = .ok (some ⟨name, f⟩)) (hvalid : f.resolved.validate s.schema = .ok ()) :
    put s path r = (.bare (if s.streams.filters.contains name then 204 else 201), (s.putFilter name f).2) := by
  have hread : readEntry s name r = .ok ⟨name, f⟩ :=
    ok_of_bind hbody (ok_of_bind hentry (if_pos rfl))
  unfold put
  simp only [hpath, hread, Service.putFilter_eq (FilterEntry.own_of_ofBody hentry) hvalid]
  cases s.streams.filters.contains name <;> rfl

theorem delete_eq {s : Service} {path : String} (hpath : DataResource.ofPath path = .ok (.filter name))
    (hstored : s.streams.filters.contains name = true) : delete s path r = (.bare 204, (s.removeFilter name).2) := by
  unfold delete
  simp only [hpath, Service.removeFilter_eq, hstored, if_true]

/-- What is deleted is the filter whose name has no slash behind it. -/
theorem request_delete_slash (h : Text.IsSegment name) (hstored : s.filters.contains name = true)
    (hdeletes : r.Deletes s (name ++ "/")) (port : Nat) :
    (s.request port r).1 = .response (.bare 204) ∧ (s.request port r).2.filters.get? name = none := by
  rw [request_delete hdeletes.method hdeletes.target, delete_eq (DataResource.ofPath_filterPath_slash h) hstored]
  refine ⟨rfl, ?_⟩
  rw [filters_withService, Service.get?_removeFilter, if_pos rfl]

theorem invoke_establish {s : Service} {session : Session} {q : EstablishRequest} {reply : EstablishReply} {op : String}
    (hread : readRequest s op r = .ok (.establish q)) (h : (s.establish session q).1 = .ok reply) :
    invoke s session op r =
      (.payload 200 (invokeEncoding r) (reply.encode (invokeEncoding r)), (s.establish session q).2) := by
  unfold invoke
  simp only [hread, Service.answer]
  revert h
  cases s.establish session q with
  | mk result t =>
    rintro rfl
    rfl

/-! ## Names that are no segments -/

theorem catalog_invoke (s : Service) (session : Session) (op : String) (r : HttpRequest) :
    (invoke s session op r).2.catalog = s.catalog := by
  unfold invoke
  split
  · rfl
  · rename_i request _
    have hanswer := Service.catalog_answer s session request
    revert hanswer
    cases s.answer session request with
    | mk result t =>
      cases result with
      | error e => exact fun hanswer => hanswer
      | ok reply? => cases reply? <;> exact fun hanswer => hanswer

theorem catalog_openEvents (s : Server) (id : SubscriptionId) :
    (s.openEvents id).2.service.catalog = s.service.catalog := by
  have hlisten := Service.catalog_of_atRest (Service.atRest_listen s.service id s.listenerBuffer)
  unfold openEvents
  revert hlisten
  cases s.service.listen id s.listenerBuffer with
  | mk result t => cases result <;> exact fun hlisten => hlisten

section
variable (h : ¬ Text.IsSegment name)
include h

theorem get?_put_of_not_isSegment (s : Service) (path : String) (r : HttpRequest) :
    (put s path r).2.streams.filters.get? name = s.streams.filters.get? name := by
  unfold put
  split
  · rfl
  · rename_i found hpath
    split
    · rfl
    · rename_i entry hread
      have hentry : entry.name = found := by
        obtain ⟨body, -, hread⟩ := exists_ok_of_bind hread
        obtain ⟨e?, -, hread⟩ := exists_ok_of_bind hread
        split at hread
        · cases hread
        · split at hread
          · rename_i heq
            cases hread
            exact heq
          · cases hread
      have hne : name ≠ entry.name := by
        rintro rfl
        exact h (hentry ▸ DataResource.isSegment_of_ofPath hpath)
      have hput := Service.get?_putFilter_of_ne (s := s) entry.filter hne
      revert hput
      cases s.putFilter entry.name entry.filter with
      | mk result t => cases result <;> exact fun hput => hput
  · rfl

theorem get?_delete_of_not_isSegment (s : Service) (path : String) (r : HttpRequest) :
    (delete s path r).2.streams.filters.get? name = s.streams.filters.get? name := by
  unfold delete
  split
  · rfl
  · rename_i found hpath
    have hne : name ≠ found := by
      rintro rfl
      exact h (DataResource.isSegment_of_ofPath hpath)
    have hdelete := (Service.get?_removeFilter s found name).trans (if_neg hne)
    revert hdelete
    cases s.removeFilter found with
    | mk result t => cases result <;> exact fun hdelete => hdelete
  · rfl

theorem get?_route_of_not_isSegment (session : Session) (s : Server) (method : String) (r : HttpRequest) (there : Route) :
    (s.route session method r there).2.filters.get? name = s.filters.get? name := by
  cases there with
  | operation raw =>
    unfold route
    simp only
    split
    · rfl
    split
    · rfl
    · exact congrArg (fun c => c.1.get? name) (catalog_invoke s.service session _ r)
  | stream raw =>
    unfold route
    simp only
    split
    · rfl
    split
    · rfl
    split
    · exact congrArg (fun c => c.1.get? name) (catalog_openEvents s _)
    · rfl
  | data raw =>
    unfold route
    simp only
    split
    · rfl
    split
    · rfl
    · rename_i path _
      split
      · rfl
      split
      · rw [filters_withService, get?_put_of_not_isSegment h, filters]
      · rw [filters_withService, get?_delete_of_not_isSegment h, filters]

/-- Whatever the request, a filter whose name is no segment of a path stays as it is. -/
theorem get?_request_of_not_isSegment (s : Server) (port : Nat) (r : HttpRequest) :
    (s.request port r).2.filters.get? name = s.filters.get? name := by
  have hconnect : (s.connect port).2.filters = s.filters := congrArg (fun t => t.streams.filters) (service_connect s port)
  unfold request
  rw [← hconnect]
  generalize s.connect port = connected
  obtain ⟨session, t⟩ := connected
  simp only
  split
  · rfl
  · rename_i there _
    split
    · have hroute := get?_route_of_not_isSegment h session t "GET" r there
      revert hroute
      cases t.route session "GET" r there with
      | mk answer u => cases answer <;> exact fun hroute => hroute
    · exact get?_route_of_not_isSegment h session t r.method r there

end

end Server

theorem addressable_of_isSegment {name : String} (h : Text.IsSegment name) : Addressable name where
  put s port r f hputs := by
    obtain ⟨body, hbody, hentry⟩ := hputs.body
    rw [Server.request_put hputs.method hputs.target, Server.put_eq (DataResource.ofPath_filterPath h) hbody hentry hputs.valid,
      Service.putFilter_eq (FilterEntry.own_of_ofBody hentry) hputs.valid]
    refine ⟨rfl, congrArg Prod.snd (Service.catalog_revalidate _), fun n => ?_⟩
    show (Service.revalidate _).streams.filters.get? n = _
    rw [Service.filters_revalidate, Table.get?_insert]
    simp only [eq_comm, Server.filters]
  establish s port r x hstored hvalid hestablishes := by
    obtain ⟨q, stream, revision, hparse, hfilter, hadmits⟩ := hestablishes.body
    have hread : Server.readRequest s.service Operation.establish.name r = .ok (.establish q) :=
      ok_of_bind (show Operation.parse Operation.establish.name = .ok .establish from rfl) (by rw [hparse]; rfl)
    obtain ⟨t, hrequest⟩ := Server.request_post hestablishes.method hestablishes.target port
    obtain ⟨hanswer, sub, hsub, hresolved⟩ :=
      Service.establish_named hadmits hfilter hstored hvalid (s.connect port).1
    rw [hrequest, Server.invoke_establish hread hanswer]
    exact ⟨_, sub, rfl, hsub, hresolved⟩
  delete s port r hstored hdeletes := by
    rw [Server.request_delete hdeletes.method hdeletes.target, Server.delete_eq (DataResource.ofPath_filterPath h) hstored]
    exact ⟨rfl, Service.get?_removeFilter s.service name⟩

/-! ## Requests that can be sent -/

namespace HttpRequest

/-- Puts the filter that lets everything pass. -/
def puttingAll (root name : String) : HttpRequest :=
  ⟨"PUT", filterTarget root name, none, none, (Json.object (FilterEntry.passingAll name)).render⟩

def deleting (root name : String) : HttpRequest := ⟨"DELETE", filterTarget root name, none, none, ""⟩

/-- Asks for the stream that every server has, with the filter of that name. -/
def namedInput (name : String) : List (String × Json) :=
  [("input", .object [("stream", .string netconfStream), ("stream-filter-name", .string name)])]

def establishing (root name : String) : HttpRequest :=
  ⟨"POST", operationTarget root .establish, none, none, (Json.object (namedInput name)).render⟩

variable {s : Server} (hroot : IsPlain s.root) (name : String)
include hroot

theorem puts_puttingAll : (puttingAll s.root name).Puts s name (.subtree ⟨[]⟩) where
  method := rfl
  target := targets_filterTarget hroot rfl
  body := ⟨.json (.object (FilterEntry.passingAll name)),
    RequestBody.parse_render (by simp [FilterEntry.passingAll, Json.Within, Json.MembersWithin, Json.maxDepth])
      (by simp [FilterEntry.passingAll, Json.Legible, Json.MembersLegible]),
    FilterEntry.ofBody_passingAll s.service.schema name⟩
  valid := rfl

theorem deletes_deleting : (deleting s.root name).Deletes s name where
  method := rfl
  target := targets_filterTarget hroot rfl

theorem establishes_establishing (hstream : s.service.streams.contains netconfStream = true)
    (haccepting : s.service.datastore.refusing = false) : (establishing s.root name).Establishes s name where
  method := rfl
  target := targets_operationTarget hroot rfl
  body := by
    have hbody : RequestBody.parse .json (Json.object (namedInput name)).render = .ok (.json (.object (namedInput name))) :=
      RequestBody.parse_render (by simp [namedInput, Json.Within, Json.MembersWithin, Json.maxDepth])
        (by simp [namedInput, Json.Legible, Json.MembersLegible])
    have hrequest : Request.ofBody s.service.schema .establish (.json (.object (namedInput name))) =
        .ok (.establish ⟨some netconfStream, some (.named name), none, none, none⟩) := rfl
    exact ⟨_, netconfStream, none, ok_of_bind hbody hrequest, rfl, rfl, hstream, rfl, haccepting⟩

end HttpRequest

/-- A server as it is set up by default. -/
def Server.plain : Server := .start ⟨0, 0⟩ ⟨.standard, .standard, none, .standard, .standard, [], .empty⟩

theorem Server.root_plain : plain.root = "restconf" := rfl

theorem Server.puts_plain (name : String) :
    (HttpRequest.puttingAll "restconf" name).Puts plain name (.subtree ⟨[]⟩) := by
  have hputs := HttpRequest.puts_puttingAll (s := plain) (by rw [root_plain]; decide) name
  rwa [root_plain] at hputs

theorem isSegment_of_addressable {name : String} (h : Addressable name) : Text.IsSegment name := by
  by_contra hname
  -- put to a server without filters, one of that name would be stored and is not
  have hstored := (h.put .plain 5000 _ _ (Server.puts_plain name)).2.2 name
  rw [if_pos rfl, Server.get?_request_of_not_isSegment hname] at hstored
  cases hstored

/-- Exactly the segments of paths are names under which filters can be stored, used and deleted. All names can be asked
for, but filters of other names are out of reach of every request. -/
theorem addressable_iff (name : String) :
    (Addressable name ↔ Text.IsSegment name) ∧
    (¬ Text.IsSegment name → ∀ (s : Server) (port : Nat) (r : HttpRequest),
      (s.request port r).2.filters.get? name = s.filters.get? name) ∧
    ∀ s : Server, IsPlain s.root →
      (∃ r f, HttpRequest.Puts r s name f) ∧ (∃ r, HttpRequest.Deletes r s name) ∧
      (s.service.streams.contains netconfStream = true → s.service.datastore.refusing = false →
        ∃ r, HttpRequest.Establishes r s name) := by
  refine ⟨⟨isSegment_of_addressable, addressable_of_isSegment⟩, Server.get?_request_of_not_isSegment, ?_⟩
  intro s hroot
  exact ⟨⟨_, _, HttpRequest.puts_puttingAll hroot name⟩, ⟨_, HttpRequest.deletes_deleting hroot name⟩,
    fun hstream haccepting => ⟨_, HttpRequest.establishes_establishing hroot name hstream haccepting⟩⟩

/-- No filter can be put to `a/b`, and what is deleted as `a/` is the filter `a`. -/
theorem slashedName_outOfReach :
    ¬ Addressable "a/b" ∧
    (∃ body, (Server.plain.request 5000 (.puttingAll "restconf" "a/b")).1 = .response (.payload 404 .json body)) ∧
    let t := (Server.plain.request 5000 (.puttingAll "restconf" "a")).2
    let u := t.request 5000 (.deleting "restconf" ("a" ++ "/"))
    t.filters.contains "a" = true ∧ u.1 = .response (.bare 204) ∧ u.2.filters.contains "a" = false := by
  have hnone : ¬ Addressable "a/b" := fun h => absurd (isSegment_of_addressable h) (by decide)
  have hput : ∃ body, (Server.plain.request 5000 (.puttingAll "restconf" "a/b")).1 =
      .response (.payload 404 .json body) := by
    have hunknown : DataResource.ofPath (filterPath "a/b") = .error (.unknownResource (filterPath "a/b")) := rfl
    rw [Server.request_put rfl (Server.puts_plain "a/b").target, Server.put, hunknown]
    exact ⟨_, rfl⟩
  have hsegment : Text.IsSegment "a" := by decide
  have hstored := ((addressable_of_isSegment hsegment).put .plain 5000 _ _ (Server.puts_plain "a")).2.2 "a"
  have hroot : (Server.plain.request 5000 (.puttingAll "restconf" "a")).2.root = "restconf" := by
    rw [Server.request_put rfl (Server.puts_plain "a").target]
    rfl
  refine ⟨hnone, hput, ?_⟩
  simp only
  generalize (Server.plain.request 5000 (.puttingAll "restconf" "a")).2 = t at hstored hroot
  have hcontains : t.filters.contains "a" = true := by
    rw [Table.contains, hstored]
    rfl
  have hdeletes := @HttpRequest.deletes_deleting t (by rw [hroot]; decide) ("a" ++ "/")
  rw [hroot] at hdeletes
  obtain ⟨hanswer, hgone⟩ := Server.request_delete_slash hsegment hcontains hdeletes 5000
  exact ⟨hcontains, hanswer, by rw [Table.contains, hgone]; rfl⟩

end YangSubscriptions
