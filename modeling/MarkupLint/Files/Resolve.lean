import MarkupLint.Files.Tree

/-!
# Resolved names

A resolved name is absolute and leads through no links.  Parts that lead to nothing are kept as they
are.  A name that leads into a circle of links has no resolved name.
-/

namespace MarkupLint
namespace Files

/-- What is left to resolve. -/
inductive Remainder where
  | part (name : String)
  /-- The link at the place has been followed to its end. -/
  | resolved (place : Location)
deriving DecidableEq, Repr, Inhabited

namespace Remainder

/-- What is left to resolve of a text. -/
def ofText (text : String) : List Remainder := (partsOf text).map part

/-- Follow parts without regard to links. -/
def followPlainly (location : Location) : Remainder → Location
  | part name =>
    if name = "" || name = "." then location
    else if name = ".." then location.drop 1
    else name :: location
  | resolved _ => location

end Remainder

namespace Host

/-- Whether every directory on the way to a place may be searched. -/
def reaches (host : Host) : Location → Bool
  | [] => true
  | _ :: above => host.searches above && host.reaches above

/-- The target of the link at a place, if there is one and the place is reached. -/
def linkAt? (host : Host) (location : Location) : Option String :=
  match host.root.at? location with
  | some (.link target) => if host.reaches location then some target else none
  | _ => none

/-- Resolve what is left from a place on, following at most the given number of links.  A link that
is being followed is not followed again: what is left is then followed without regard to links. -/
def resolveFrom
    (host : Host)
    (links : Nat)
    (known : List (Location × Location))
    (opened : List Location)
    (location : Location)
    (rest : List Remainder) :
    Except Failure Location :=
  match rest with
  | [] => .ok location
  | .resolved followed :: rest =>
    host.resolveFrom links ((followed, location) :: known) (opened.erase followed) location rest
  | .part name :: rest =>
    if name = "" || name = "." then host.resolveFrom links known opened location rest
    else if name = ".." then host.resolveFrom links known opened (location.drop 1) rest
    else if name.toList.contains '\x00' then .error (PathFault.nulCharacter.failure name)
    else
      match host.linkAt? (name :: location) with
      | some target =>
        match known.lookup (name :: location) with
        | some place => host.resolveFrom links known opened place rest
        | none =>
          if opened.contains (name :: location) then
            .ok (rest.foldl Remainder.followPlainly (name :: location))
          else if host.room.links ≤ opened.length then .error .tooDeep
          else
            match links with
            | 0 => .ok (rest.foldl Remainder.followPlainly (name :: location))
            | links + 1 =>
              host.resolveFrom links known ((name :: location) :: opened)
                (if isRooted target then [] else location)
                (Remainder.ofText target ++ .resolved (name :: location) :: rest)
      | none => host.resolveFrom links known opened (name :: location) rest
termination_by (links, rest.length)

/-- The resolved name of an absolute name. -/
def resolve (host : Host) (name : PathName) : Except Failure PathName :=
  let path := name.text
  match host.resolveFrom host.root.size [] [] [] (Remainder.ofText path) with
  | .error failure => .error failure
  | .ok location =>
    let resolved := location.pathName
    match host.find resolved.text with
    | .error .tooManyLinks =>
      .error (.of "RuntimeError" [s!"Symlink loop from {Text.quoted resolved.text}"])
    | .error .nulCharacter => .error (PathFault.nulCharacter.failure path)
    | _ => .ok resolved

end Host
end Files
end MarkupLint
