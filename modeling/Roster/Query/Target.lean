import Roster.Table.Entry

/-!
# Targets

What a client is told about a selected entry: the machine, and one address for each resource of the
service. The addresses come from templates in which `{machine}` and `{path}` stand for the machine
and for the service.
-/

namespace Roster

/-- A machine and the addresses of its resources, in the order of their names. -/
structure Target where
  machine : String
  urls : List (String × String)
  deriving DecidableEq, Repr

/-- The templates of a service: an address with placeholders for each resource. -/
abbrev Templates := List (String × String)

namespace Target

/-- Replaces every occurrence of a pattern, from left to right, leaving out the first `skip`
    characters as they belong to an occurrence that has been replaced. -/
def replaceFrom (pattern replacement : List Char) : Nat → List Char → List Char
  | _, [] => []
  | 0, c :: rest =>
    if pattern.isPrefixOf (c :: rest) then
      replacement ++ replaceFrom pattern replacement (pattern.length - 1) rest
    else c :: replaceFrom pattern replacement 0 rest
  | skip + 1, _ :: rest => replaceFrom pattern replacement skip rest

/-- Replaces every occurrence of a pattern that is not empty. -/
def replaceAll (pattern replacement : String) (text : List Char) : List Char :=
  replaceFrom pattern.toList replacement.toList 0 text

/-- Fills a template in, first the machine and then the service. -/
def expand (machine path template : String) : String :=
  .ofList (replaceAll "\x7bpath\x7d" path
    (replaceAll "\x7bmachine\x7d" machine template.toList))

/-- The templates of a service without templates of its own. -/
def standardTemplates : Templates :=
  [("default", "https://\x7bmachine\x7d/\x7bpath\x7d")]

/-- The templates of a service, or the standard ones if there are none. -/
def templatesOf (services : List (String × Templates)) (service : String) : Templates :=
  match services.lookup service with
  | some (t :: ts) => t :: ts
  | _ => standardTemplates

/-- The target that an entry stands for, with one address for each template. -/
def ofEntry (services : List (String × Templates)) (e : Entry) : Target where
  machine := e.key.target
  urls :=
    let urls := (templatesOf services e.key.path).map fun (resource, template) =>
      (resource, expand e.key.target e.key.path template)
    urls.mergeSort fun a b => decide (a.1 ≤ b.1)

end Target

end Roster
