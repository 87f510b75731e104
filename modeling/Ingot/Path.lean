import Ingot.Text.Raw

/-!
# Paths

A path is a raw name. Slashes cut it into components; repeated slashes and single dots mean
nothing, a single dot at the start of a relative path apart. Two paths are the same, come
before one another or lie below one another as their components say, names by their bytes.
-/

namespace Ingot.Path

/-! ### Components -/

/-- A component of a path. -/
inductive Component where
  /-- The slash that an absolute path starts with. -/
  | root
  /-- The dot that a relative path starts with. -/
  | current
  /-- Two dots: the directory above. -/
  | parent
  /-- A name. -/
  | name (text : String)
  deriving DecidableEq, Repr

/-- A component as it is written. -/
def Component.text : Component → String
  | root => "/"
  | current => "."
  | parent => ".."
  | name text => text

/-- Where a component stands among others. -/
def Component.rank : Component → Nat
  | root => 0
  | current => 1
  | parent => 2
  | name _ => 3

/-- The name that a component is, if it is one. -/
def Component.name? : Component → Option String
  | name text => some text
  | _ => none

/-- The pieces of a row of characters between slashes. -/
def pieces : List Char → List (List Char)
  | [] => [[]]
  | c :: rest =>
    if c = '/' then [] :: pieces rest
    else
      match pieces rest with
      | [] => [[c]]
      | piece :: more => (c :: piece) :: more

/-- The pieces of a path between slashes that are not empty. -/
def segments (p : String) : List String :=
  ((pieces p.toList).filter fun piece => !piece.isEmpty).map String.ofList

/-- A path that starts with a slash. -/
def isAbsolute (p : String) : Bool := p.toList.head? == some '/'

/-- The component of a piece that is not a single dot. -/
def componentOf (segment : String) : Component :=
  if segment = ".." then .parent else .name segment

/-- The components of a path. -/
def components (p : String) : List Component :=
  let inner := ((segments p).filter (· != ".")).map componentOf
  if isAbsolute p then .root :: inner
  else if (pieces p.toList).head? = some ['.'] then .current :: inner
  else inner

/-- The names among the components of a path. -/
def names (components : List Component) : List String := components.filterMap Component.name?

/-- A path and another one behind it: an absolute one stands alone, and a slash is put
between them where there is none. -/
def join (base p : String) : String :=
  if isAbsolute p then p
  else if base.isEmpty ∨ base.toList.getLast? = some '/' then base ++ p
  else base ++ "/" ++ p

/-- The path of some components. -/
def ofComponents (components : List Component) : String :=
  components.foldl (fun p c => join p c.text) ""

/-! ### Comparing -/

/-- Two paths with the same components. -/
def same (p q : String) : Bool := components p == components q

/-- Whether a component comes before another one or is the same. -/
def Component.le (a b : Component) : Bool :=
  match a, b with
  | name x, name y => Raw.le x y
  | a, b => decide (a.rank ≤ b.rank)

/-- Whether components come before others, or are the same. -/
def componentsLe : List Component → List Component → Bool
  | [], _ => true
  | _ :: _, [] => false
  | a :: as, b :: bs => if a = b then componentsLe as bs else a.le b

/-- Whether a path comes before another one, or is the same. -/
def le (p q : String) : Bool := componentsLe (components p) (components q)

/-- The components of a path below another one, if it is below. -/
def below? : List Component → List Component → Option (List Component)
  | [], cs => some cs
  | _ :: _, [] => none
  | b :: base, c :: cs => if b = c then below? base cs else none

/-- The components of a path behind those of a base, or all of them. -/
def componentsBelow (base p : String) : List Component :=
  (below? (components base) (components p)).getD (components p)

/-! ### Parts -/

/-- The last component of a path, if it is a name. -/
def fileName? (p : String) : Option String := (components p).getLast?.bind Component.name?

/-- The path without its last component, if there is one that can be left out. -/
def parent? (p : String) : Option String :=
  match (components p).getLast? with
  | none => none
  | some .root => none
  | some _ => some (ofComponents (components p).dropLast)

/-- A name cut at its last dot, if there is a dot that is not its first character: what
stands before the dot and what stands behind it. -/
def cutAtDot (name : String) : String × Option String :=
  let reversed := name.toList.reverse
  let extension := (reversed.takeWhile (· != '.')).reverse
  match reversed.dropWhile (· != '.') with
  | '.' :: c :: stem => (String.ofList (c :: stem).reverse, some (String.ofList extension))
  | _ => (name, none)

/-- The part of a file name behind its last dot. -/
def extension? (p : String) : Option String := (fileName? p).bind fun name => (cutAtDot name).2

/-- The components of a path whose file name is cut at its last dot; a name that is only a
dot or two dots then is none any more. -/
def withoutExtension (cs : List Component) : List Component :=
  match cs.getLast? with
  | some (.name name) =>
    let stem := (cutAtDot name).1
    cs.dropLast ++ (if stem = "." ∨ stem = ".." then [] else [.name stem])
  | _ => cs

/-! ### Relative paths -/

/-- The steps from a base to a path, both as components behind what they share. There are
none if the way would lead up from a directory that is not known. -/
def steps : List Component → List Component → Option (List Component)
  | cs, [] => some cs
  | cs, .current :: base =>
    match cs with
    | [] => (steps [] base).map (.parent :: ·)
    | c :: cs => (steps cs base).map (c :: ·)
  | [], _ :: base => (steps [] base).map (.parent :: ·)
  | _ :: _, .parent :: _ => none
  | c :: cs, _ :: base => some (.parent :: base.map (fun _ => .parent) ++ c :: cs)

/-- Two rows of components without the start that they share. -/
def withoutShared : List Component → List Component → List Component × List Component
  | c :: cs, b :: base => if c = b then withoutShared cs base else (c :: cs, b :: base)
  | cs, base => (cs, base)

/-- The path that leads from a base to a path; the path itself if there is no such way. -/
def relativeTo (base p : String) : String :=
  if isAbsolute p != isAbsolute base then p
  else
    let (cs, bs) := withoutShared (components p) (components base)
    match steps cs bs with
    | some way => ofComponents way
    | none => p

end Ingot.Path
