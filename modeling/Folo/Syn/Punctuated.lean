import Folo.Syn.Token

/-!
# Punctuated sequences

Model of `syn::punctuated::Punctuated<T, P>`: the pairs `Vec<(T, P)>` of a value and the
punctuation after it, then an optional last value with no punctuation after it. `push` is the
operation `linked::object` uses to add its field; the lemmas below say what it keeps.

* `values_push`: the values after a push are the old values, in order, then the new one.
* `toTokens_push`: the printed sequence after a push is the old one, a separator when the old
  one did not already end in punctuation, then the new value.
-/

namespace Folo.Syn

/-- `Token![,]`. -/
structure Comma
  deriving DecidableEq, Repr, Inhabited

/-- `Token![+]`. -/
structure Plus
  deriving DecidableEq, Repr, Inhabited

instance : ToTokens Comma := ⟨fun _ => [punct ',']⟩

instance : ToTokens Plus := ⟨fun _ => [punct '+']⟩

/-- A sequence of values separated by punctuation (`syn::punctuated::Punctuated`). -/
structure Punctuated (T P : Type) where
  inner : List (T × P)
  last : Option T
  deriving DecidableEq, Repr

namespace Punctuated

variable {T P : Type}

/-- The empty sequence (`Punctuated::new`). -/
def new : Punctuated T P := ⟨[], none⟩

/-- `Punctuated::is_empty`. -/
def isEmpty (p : Punctuated T P) : Bool := p.inner.isEmpty && p.last.isNone

/-- Whether the sequence is empty or ends in punctuation (`Punctuated::empty_or_trailing`). -/
def emptyOrTrailing (p : Punctuated T P) : Bool := p.last.isNone

/-- The values in order (`Punctuated::iter`). -/
def values (p : Punctuated T P) : List T := p.inner.map Prod.fst ++ p.last.toList

/-- Each value with the punctuation after it, if any (`Punctuated::pairs`). -/
def pairs (p : Punctuated T P) : List (T × Option P) :=
  p.inner.map (fun x => (x.1, some x.2)) ++ p.last.toList.map (·, none)

/-- Appends a value, first closing the last value with default punctuation when the
sequence does not already end in punctuation (`Punctuated::push`, through `push_punct` and
`push_value`, whose assertions the check on `empty_or_trailing` makes unreachable). -/
def push [Inhabited P] (p : Punctuated T P) (value : T) : Punctuated T P :=
  match p.last with
  | none => ⟨p.inner, some value⟩
  | some last => ⟨p.inner ++ [(last, default)], some value⟩

/-- Each value then the punctuation after it (`impl ToTokens for Punctuated`). -/
instance [ToTokens T] [ToTokens P] : ToTokens (Punctuated T P) :=
  ⟨fun p => p.pairs.flatMap fun x => toTokens x.1 ++ toTokens x.2⟩

lemma toTokens_eq [ToTokens T] [ToTokens P] (p : Punctuated T P) :
    toTokens p = p.pairs.flatMap fun x => toTokens x.1 ++ toTokens x.2 := rfl

/-- A push keeps every value, in order, and adds exactly the new one at the end. -/
@[simp] lemma values_push [Inhabited P] (p : Punctuated T P) (v : T) :
    (p.push v).values = p.values ++ [v] := by
  cases h : p.last <;> simp [push, values, h]

/-- After a push the sequence is not empty. -/
@[simp] lemma isEmpty_push [Inhabited P] (p : Punctuated T P) (v : T) :
    (p.push v).isEmpty = false := by
  cases h : p.last <;> simp [push, isEmpty, h]

/-- A push prints the old sequence unchanged, a default separator when the old sequence
ended in a value, then the new value. -/
lemma toTokens_push [Inhabited P] [ToTokens T] [ToTokens P] (p : Punctuated T P) (v : T) :
    toTokens (p.push v) =
      toTokens p ++ (if p.emptyOrTrailing then [] else toTokens (default : P)) ++ toTokens v := by
  cases h : p.last <;> simp [push, toTokens_eq, pairs, emptyOrTrailing, h]

end Punctuated

end Folo.Syn
