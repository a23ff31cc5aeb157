import YangSubscriptions.Service.Lifecycle

/-!
# Filters that change

Named filters and the schema change under subscriptions that depend on them. After each such change
every filter is resolved again: a subscription whose filter no longer resolves is suspended, and one
that was suspended for that is resumed as soon as it does.
-/

namespace YangSubscriptions.Service

/-- Resolves the filter of a subscription again. -/
def revalidateOne (s : Service) (id : SubscriptionId) : Service :=
  match s.registry.lookup id with
  | none => s
  | some sub =>
    match s.streams.resolve s.schema sub.filter with
    | .ok resolved =>
      let s := { s with registry := s.registry.update id fun r => { r with resolved } }
      if sub.suspension = some .filterUnavailable then s.resume sub else s
    | .error _ =>
      if sub.state = .active then
        match s.registry.suspend id .filterUnavailable with
        | .ok (_, registry) => { s with registry }.emit sub (.suspended id .filterUnavailable)
        | .error _ => s
      else s

/-- Resolves the filters of all subscriptions again (`revalidate`). -/
def revalidate (s : Service) : Service := s.registry.ids.foldl revalidateOne s

/-- Stores a filter under a name; tells whether the name is new (`put_filter`). -/
def putFilter (s : Service) (name : String) (filter : StreamFilter) : Except SubscriptionError Bool × Service :=
  match s.streams.putFilter s.schema name filter with
  | .ok (isNew, streams) => (.ok isNew, { s with streams }.revalidate)
  | .error e => (.error e, s)

/-- Removes a stored filter. What refers to it no longer resolves (`remove_filter`). -/
def removeFilter (s : Service) (name : String) : Except SubscriptionError Unit × Service :=
  match s.streams.removeFilter name with
  | some streams => (.ok (), { s with streams }.revalidate)
  | none => (.error (.unknownFilter name), s)

/-- Puts another schema in effect; a service that watches it revalidates. -/
def setSchema (s : Service) (schema : Schema) (watching : Bool) : Service :=
  let s := { s with schema }
  if watching then s.revalidate else s

end YangSubscriptions.Service
