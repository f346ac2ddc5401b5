import Folo.Syn.Generics

/-!
# Items and errors

Model of `syn::Item`, of the struct syntax `linked::object` rewrites (`ItemStruct`, `Fields`,
`Field`) with `syn`'s printers for it, and of `syn::Error` with `to_compile_error`.

Of an item that is not a struct the crate reads nothing but its span, so `Item` keeps only
which kind the item is (and, for `Item::Verbatim`, its tokens). An error keeps its messages;
`syn` never builds an error without one, and `Error` carries that as a field.
-/

namespace Folo.Syn

/-- `syn::Field`: `name: Ty` when named, `Ty` alone when unnamed, with attributes and
visibility; the type kept as tokens. -/
structure Field where
  attrs : List Attribute
  vis : Visibility
  ident : Option Ident
  ty : TokenStream
  deriving DecidableEq, Repr

instance : ToTokens Field :=
  ⟨fun f => toTokens f.attrs ++ toTokens f.vis ++ f.ident.elim [] (toTokens · ++ [punct ':']) ++
    f.ty⟩

/-- `syn::Fields`: `{ a: A, b: B }`, `(A, B)` or nothing. -/
inductive Fields
  | named (named : Punctuated Field Comma)
  | unnamed (unnamed : Punctuated Field Comma)
  | unit
  deriving DecidableEq, Repr

/-- `syn::ItemStruct`. -/
structure ItemStruct where
  attrs : List Attribute
  vis : Visibility
  ident : Ident
  generics : Generics
  fields : Fields
  deriving DecidableEq, Repr

/-- `impl ToTokens for ItemStruct`: the where clause stands before the braces of named fields
and after the parentheses of unnamed ones, and only a struct without braces ends in `;`. -/
instance : ToTokens ItemStruct :=
  ⟨fun s => toTokens (outer s.attrs) ++ toTokens s.vis ++ .ident "struct" :: toTokens s.ident ++
    toTokens s.generics ++
    match s.fields with
    | .named named => toTokens s.generics.whereClause ++ [.group .brace (toTokens named)]
    | .unnamed unnamed =>
      .group .parenthesis (toTokens unnamed) :: toTokens s.generics.whereClause ++ [punct ';']
    | .unit => toTokens s.generics.whereClause ++ [punct ';']⟩

/-- `syn::Item`, one constructor for each of its variants. -/
inductive Item
  | const
  | enum
  | externCrate
  | fn
  | foreignMod
  | impl
  | mac
  | mod
  | static
  | struct (item : ItemStruct)
  | trait
  | traitAlias
  | type
  | union
  | use
  | verbatim (tokens : TokenStream)
  deriving DecidableEq, Repr

/-- `syn::Error`: its messages (spans are not modelled), never none. -/
structure Error where
  messages : List String
  messages_ne_nil : messages ≠ []

/-- An error with one message (`syn::Error::new`). -/
def Error.new (message : String) : Error := ⟨[message], List.cons_ne_nil _ _⟩

/-- `::core::compile_error! { "message" }` (`ErrorMessage::to_compile_error`). -/
def compileError (message : String) : TokenStream :=
  colon2 ++ [.ident "core"] ++ colon2 ++
    [.ident "compile_error", punct '!', .group .brace [.literal (.string message)]]

/-- One `compile_error!` for each message (`syn::Error::to_compile_error`). -/
def Error.toCompileError (e : Error) : TokenStream := e.messages.flatMap compileError

/-- A token stream holds a `compile_error!` invocation. -/
def ContainsCompileError (ts : TokenStream) : Prop := ∃ message, compileError message <:+: ts

/-- The tokens of an error always hold a `compile_error!`, since an error has a message. -/
lemma Error.containsCompileError (e : Error) : ContainsCompileError e.toCompileError := by
  obtain ⟨messages, h⟩ := e
  obtain _ | ⟨m, ms⟩ := messages
  · exact absurd rfl h
  · exact ⟨m, List.infix_append [] _ _⟩

end Folo.Syn
