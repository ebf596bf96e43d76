/-!
# Structured data

A document of structured data is a tree: arrays, objects and, at the leaves, scalars. What a scalar
is differs from one notation to the next, and so does what it may be read as; `ReadScalar` says
that, and the readers of records are the same for every notation.

A record has named fields in a fixed order. It may be written as an object, whose members may come
in any order and of which unknown ones are skipped, or, if the notation allows it, as an array that
lists the fields in order and may end early. `Tree.record?` brings both to one form: for each field
its value, if one was given. What an absent field means is for each field to say.

In some notations what a scalar is depends on what it is read as. A part of a document that has to
be taken up before it is known what it will be read as is *settled*: every scalar becomes what it
looks like, and it may be that one looks like nothing that can be kept.
-/

namespace Roster

/-- Structured data. The name of a member may be no text. -/
inductive Tree (σ : Type) where
  | scalar (s : σ)
  | array (elements : List (Tree σ))
  | object (members : List (Option String × Tree σ))
  deriving Inhabited

/-- What scalars may be read as. -/
class ReadScalar (σ : Type) where
  isNull : σ → Bool
  /-- whether the scalar may also stand for an array or an object without elements -/
  isBlank : σ → Bool
  text? : σ → Option String
  bool? : σ → Option Bool
  /-- a number that is written as an integer -/
  int? : σ → Option Int
  /-- any number -/
  float? : σ → Option Float
  /-- whether an array may stand for a record -/
  arraysAreRecords : Bool

/-- What scalars of a notation are when it is not known what they will be read as. -/
class Settle (σ : Type) (τ : outParam Type) where
  settle? : σ → Option τ

namespace Tree

variable {σ : Type} [ReadScalar σ] {α : Type}

/-- The scalar that a tree is. -/
def scalar? : Tree σ → Option σ
  | .scalar s => some s
  | _ => none

/-- The tree stands for nothing. -/
def isNull (t : Tree σ) : Bool :=
  match t with
  | .scalar s => ReadScalar.isNull s
  | _ => false

/-- A tree read as a text. -/
def text? (t : Tree σ) : Option String :=
  t.scalar?.bind ReadScalar.text?

/-- A tree read as a truth value. -/
def bool? (t : Tree σ) : Option Bool :=
  t.scalar?.bind ReadScalar.bool?

/-- A tree read as an integer. -/
def int? (t : Tree σ) : Option Int :=
  t.scalar?.bind ReadScalar.int?

/-- A tree read as a double. -/
def float? (t : Tree σ) : Option Float :=
  t.scalar?.bind ReadScalar.float?

/-- A tree read as a natural number of so many bits. -/
def natBelow? (bits : Nat) (t : Tree σ) : Option Nat := do
  let n ← t.int?
  if 0 ≤ n ∧ n < Nat.pow 2 bits then some n.toNat else none

/-- A tree read as a signed number of 64 bits. -/
def int64? (t : Tree σ) : Option Int := do
  let n ← t.int?
  if -Nat.pow 2 63 ≤ n ∧ n < Nat.pow 2 63 then some n else none

/-- Whether the tree is a scalar that may stand for no elements. -/
def isBlank (t : Tree σ) : Bool :=
  match t with
  | .scalar s => ReadScalar.isBlank s
  | _ => false

/-- The members of an object; a blank tree has none. -/
def members? : Tree σ → Option (List (Option String × Tree σ))
  | .object members => some members
  | t => if t.isBlank then some [] else none

/-- The elements of an array, each of them read. -/
def list? (f : Tree σ → Option α) : Tree σ → Option (List α)
  | .array elements => elements.mapM f
  | t => if t.isBlank then some [] else none

/-- A map from names, each value read by `f`. Of two members with one name the later counts. -/
def map? (f : Tree σ → Option α) (t : Tree σ) : Option (List (String × α)) := do
  let pairs ← (← t.members?).mapM fun (name, x) => do
    let name ← name
    let x ← f x
    pure (name, x)
  pure (pairs.foldl (fun acc p => acc.filter (fun q => q.1 != p.1) ++ [p]) [])

/-! ## Records -/

/-- The value of a member. Fails if the name occurs twice, and gives none if it does not occur. -/
def memberOnce (name : String) (members : List (Option String × Tree σ)) :
    Option (Option (Tree σ)) :=
  match members.filter fun m => m.1 == some name with
  | [] => some none
  | [(_, x)] => some (some x)
  | _ => none

/-- The fields of a record that is written as an object. Fails on a repeated field and on a member
    name that is no text. -/
def object? (names : List String) (t : Tree σ) : Option (List (Option (Tree σ))) := do
  let members ← t.members?
  if members.any fun m => m.1.isNone then none
  else names.mapM fun name => memberOnce name members

/-- The fields of a record. Fails also on an array that is too long. -/
def record? (names : List String) (t : Tree σ) : Option (List (Option (Tree σ))) :=
  match t with
  | .array elements =>
    if !ReadScalar.arraysAreRecords σ || names.length < elements.length then none
    else some (elements.map some ++ List.replicate (names.length - elements.length) none)
  | _ => t.object? names

/-- An absent field, or one that is null, is absent; anything else is read by `f`. -/
def optional (f : Tree σ → Option α) : Option (Tree σ) → Option (Option α)
  | none => some none
  | some t => if t.isNull then some none else (f t).map some

/-- A member that has to be there. -/
def required (f : Tree σ → Option α) : Option (Tree σ) → Option α
  | none => none
  | some t => f t

/-- A field that stands for `value` when it is absent. -/
def withDefault (value : α) (f : Tree σ → Option α) : Option (Tree σ) → Option α
  | none => some value
  | some t => f t

/-! ## Alternatives -/

section Settle

variable {τ : Type} [Settle σ τ]

mutual

/-- The tree as it is to a reader that does not know yet what it will be read as. -/
def settle? : Tree σ → Option (Tree τ)
  | .scalar s => (Settle.settle? s).map .scalar
  | .array elements => (settleElements? elements).map .array
  | .object members => (settleMembers? members).map .object

/-- All elements of an array, settled. -/
def settleElements? : List (Tree σ) → Option (List (Tree τ))
  | [] => some []
  | t :: rest =>
    match settle? t, settleElements? rest with
    | some t', some rest' => some (t' :: rest')
    | _, _ => none

/-- All members of an object, settled. Their names stay. -/
def settleMembers? : List (Option String × Tree σ) → Option (List (Option String × Tree τ))
  | [] => some []
  | (name, t) :: rest =>
    match settle? t, settleMembers? rest with
    | some t', some rest' => some ((name, t') :: rest')
    | _, _ => none

end

/-- A record of one of several kinds: the member `type`, or the first element, names the kind,
    and the rest is a record of that kind. The rest is settled, as the kind is not known
    before it has been read. -/
def tagged? [ReadScalar τ] (t : Tree σ) : Option (String × Tree τ) :=
  match (t.settle? : Option (Tree τ)) with
  | some (.object members) => do
    let kind ← (← memberOnce "type" members).bind text?
    pure (kind, .object (members.filter fun m => m.1 != some "type"))
  | some (.array (kind :: rest)) => do
    pure (← kind.text?, .array rest)
  | _ => none

end Settle

/-- The value of the last member with a name, if there is one. -/
def get? (t : Tree σ) (name : String) : Option (Tree σ) :=
  match t with
  | .object members => (members.reverse.find? fun m => m.1 == some name).map (·.2)
  | _ => none

end Tree

end Roster
