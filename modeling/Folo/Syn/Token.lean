import Mathlib.Tactic.Lemma
import Mathlib.Data.List.Infix

/-!
# Token streams

Model of the `proc_macro2` token trees that the attribute macros of
`crates/linked_macros_impl` receive and return, and of `quote::ToTokens`, the trait through
which `quote!` interpolates a value written `#x`.

Spans are not modelled: they only say where the compiler reports a diagnostic, and no
function of the crate reads one. A literal keeps its value when it is a string literal (the
only kind the crate builds, in `compile_error!`) and its source text otherwise.

Rust → Lean naming: `TokenTree::{Group, Ident, Punct, Literal}` → `TokenTree.{group, ident,
punct, literal}`; `Spacing::{Alone, Joint}` → `Spacing.{alone, joint}`.
-/

namespace Folo.Syn

/-- Whether a punctuation character is glued to the next one (`proc_macro2::Spacing`). -/
inductive Spacing
  | alone
  | joint
  deriving DecidableEq, Repr

/-- The delimiter of a group (`proc_macro2::Delimiter`). -/
inductive Delimiter
  | parenthesis
  | brace
  | bracket
  | none
  deriving DecidableEq, Repr

/-- A literal token (`proc_macro2::Literal`). -/
inductive Literal
  | string (value : String)
  | other (repr : String)
  deriving DecidableEq, Repr

/-- A token tree (`proc_macro2::TokenTree`); keywords are identifiers, as in `proc_macro2`. -/
inductive TokenTree
  | group (delimiter : Delimiter) (stream : List TokenTree)
  | ident (name : String)
  | punct (ch : Char) (spacing : Spacing)
  | literal (lit : Literal)
  deriving Repr

/-- A token stream (`proc_macro2::TokenStream`). -/
abbrev TokenStream := List TokenTree

mutual

/-- Equality of token trees is decidable (by structural recursion through groups). -/
def TokenTree.decEq : (a b : TokenTree) → Decidable (a = b)
  | .group d s, .group d' s' =>
    if hd : d = d' then
      match TokenTree.decEqStream s s' with
      | isTrue hs => isTrue (by rw [hd, hs])
      | isFalse hs => isFalse fun h => by cases h; exact hs rfl
    else isFalse fun h => by cases h; exact hd rfl
  | .ident n, .ident n' =>
    if h : n = n' then isTrue (by rw [h]) else isFalse fun e => by cases e; exact h rfl
  | .punct c s, .punct c' s' =>
    if h : c = c' ∧ s = s' then isTrue (by rw [h.1, h.2])
    else isFalse fun e => by cases e; exact h ⟨rfl, rfl⟩
  | .literal l, .literal l' =>
    if h : l = l' then isTrue (by rw [h]) else isFalse fun e => by cases e; exact h rfl
  | .group .., .ident .. | .group .., .punct .. | .group .., .literal .. => isFalse nofun
  | .ident .., .group .. | .ident .., .punct .. | .ident .., .literal .. => isFalse nofun
  | .punct .., .group .. | .punct .., .ident .. | .punct .., .literal .. => isFalse nofun
  | .literal .., .group .. | .literal .., .ident .. | .literal .., .punct .. => isFalse nofun

/-- Equality of token streams is decidable. -/
def TokenTree.decEqStream : (a b : List TokenTree) → Decidable (a = b)
  | [], [] => isTrue rfl
  | [], _ :: _ | _ :: _, [] => isFalse nofun
  | t :: ts, t' :: ts' =>
    match TokenTree.decEq t t', TokenTree.decEqStream ts ts' with
    | isTrue h, isTrue h' => isTrue (by rw [h, h'])
    | isFalse h, _ => isFalse fun e => by cases e; exact h rfl
    | _, isFalse h' => isFalse fun e => by cases e; exact h' rfl

end

instance : DecidableEq TokenTree := TokenTree.decEq

/-- An identifier (`proc_macro2::Ident`); a raw identifier keeps its `r#` prefix. -/
structure Ident where
  name : String
  deriving DecidableEq, Repr

/-- Values that `quote!` interpolates with `#x` (`quote::ToTokens`). -/
class ToTokens (α : Type) where
  toTokens : α → TokenStream

export ToTokens (toTokens)

/-- A token tree prints itself, so a token stream prints itself (`impl ToTokens for TokenTree`). -/
instance : ToTokens TokenTree := ⟨fun t => [t]⟩

instance : ToTokens Ident := ⟨fun i => [.ident i.name]⟩

/-- `None` prints nothing, `Some x` prints `x` (`impl ToTokens for Option<T>`). -/
instance {α : Type} [ToTokens α] : ToTokens (Option α) := ⟨fun o => o.elim [] toTokens⟩

/-- A sequence prints its elements one after the other (`TokenStreamExt::append_all`). -/
instance {α : Type} [ToTokens α] : ToTokens (List α) := ⟨fun xs => xs.flatMap toTokens⟩

@[simp] lemma toTokens_ident (i : Ident) : toTokens i = [.ident i.name] := rfl

@[simp] lemma toTokens_none {α : Type} [ToTokens α] : toTokens (none : Option α) = [] := rfl

@[simp] lemma toTokens_some {α : Type} [ToTokens α] (x : α) : toTokens (some x) = toTokens x :=
  rfl

@[simp] lemma toTokens_list {α : Type} [ToTokens α] (xs : List α) :
    toTokens xs = xs.flatMap toTokens := rfl

@[simp] lemma toTokens_tokenTree (t : TokenTree) : toTokens t = [t] := rfl

@[simp] lemma toTokens_tokenStream (ts : TokenStream) : toTokens ts = ts := by
  induction ts <;> simp_all

/-- A punctuation character that is not glued to the next one. -/
def punct (c : Char) : TokenTree := .punct c .alone

/-- `::`, which `quote!` emits as a joint `:` followed by an alone `:`. -/
def colon2 : TokenStream := [.punct ':' .joint, .punct ':' .alone]

/-- `->`, a joint `-` followed by an alone `>`. -/
def rArrow : TokenStream := [.punct '-' .joint, .punct '>' .alone]

/-- A path written from the crate root, `::a::b::c`. -/
def globalPath (segments : List String) : TokenStream :=
  segments.flatMap fun s => colon2 ++ [.ident s]

end Folo.Syn
