import Folo.Syn.Item

/-!
# The `linked::object` attribute

Model of `crates/linked_macros_impl/src/linked_object.rs`. `entrypoint` parses the tokens of
the item the attribute stands on; `core` adds the hidden link field to a struct with named
fields and emits the struct with three impls (`linked::Object`, `Clone` and
`From<linked::Family<Self>>`); every other input gives the input back with a `compile_error!`.

`syn::parse2::<Item>` is a parameter of `entrypoint`, so what is proved holds for every parser.
The `quote!` block of `core` is written out token by token, with the spacing `quote!` gives
(`::`, `->` and `>>` end in an alone character after joint ones; every other character is
alone); `#x` is `toTokens x`.

Rust → Lean naming: `entrypoint`, `core` keep their names; `token_stream_and_error` →
`tokenStreamAndError`; the field of `parse_quote!` → `linkField`.
-/

namespace Folo.LinkedObject

open Folo.Syn

/-- Modelled from the spec: `syn_helpers::token_stream_and_error` is not among the source
files. Misuse of the attribute is "surfaced as a compile-time diagnostic"; as its name says,
and as the crate's tests check with `contains_compile_error`, the helper returns the input
tokens followed by the error as `compile_error!`. -/
def tokenStreamAndError (s : TokenStream) (e : Error) : TokenStream := s ++ e.toCompileError

/-- The field `core` adds, `#[doc(hidden)] __private_linked_link: ::linked::__private::Link<Self>`,
as `parse_quote!` builds it. -/
def linkField : Field where
  attrs := [⟨.outer, [.ident "doc", .group .parenthesis [.ident "hidden"]]⟩]
  vis := .inherited
  ident := some ⟨"__private_linked_link"⟩
  ty := globalPath ["linked", "__private", "Link"] ++ [punct '<', .ident "Self", punct '>']

/-- Adds the link field to a struct with named fields and emits the struct followed by its
`Object`, `Clone` and `From` impls; a tuple or unit struct is an error (`core`). -/
def core (item : ItemStruct) : Except Error TokenStream :=
  let (implGenerics, typeGenerics, whereClause) := item.generics.splitForImpl
  let name := item.ident
  match item.fields with
  | .named fields =>
    let item := { item with fields := .named (fields.push linkField) }
    let objectImpl :=
      .ident "impl" :: toTokens implGenerics ++ globalPath ["linked", "Object"] ++
        .ident "for" :: toTokens name ++ toTokens typeGenerics ++ toTokens whereClause ++
        [.group .brace (.ident "fn" :: .ident "family" ::
          .group .parenthesis [punct '&', .ident "self"] :: rArrow ++
          globalPath ["linked", "Family"] ++ [punct '<', .ident "Self", punct '>',
          .group .brace [.ident "self", punct '.', .ident "__private_linked_link", punct '.',
            .ident "family", .group .parenthesis []]])]
    let cloneImpl :=
      .ident "impl" :: toTokens implGenerics ++ [.ident "Clone", .ident "for"] ++ toTokens name ++
        toTokens typeGenerics ++ toTokens whereClause ++
        [.group .brace (.ident "fn" :: .ident "clone" ::
          .group .parenthesis [punct '&', .ident "self"] :: rArrow ++
          [.ident "Self", .group .brace (globalPath ["linked", "__private", "clone"] ++
            [.group .parenthesis [.ident "self"]])])]
    let fromImpl :=
      .ident "impl" :: toTokens implGenerics ++ globalPath ["std", "convert", "From"] ++
        punct '<' :: globalPath ["linked", "Family"] ++ punct '<' :: toTokens name ++
        toTokens typeGenerics ++ [.punct '>' .joint, punct '>', .ident "for"] ++ toTokens name ++
        toTokens typeGenerics ++ toTokens whereClause ++
        [.group .brace (.ident "fn" :: .ident "from" ::
          .group .parenthesis (.ident "family" :: punct ':' :: globalPath ["linked", "Family"] ++
            punct '<' :: toTokens name ++ toTokens typeGenerics ++ [punct '>']) :: rArrow ++
          [.ident "Self", .group .brace [.ident "family", punct '.', .ident "__private_into",
            .group .parenthesis []]])]
    .ok (toTokens item ++ objectImpl ++ cloneImpl ++ fromImpl)
  | _ => .error (.new "the `linked::object` attribute must be applied to a struct with named fields")

/-- Parses the item, rewrites it when it is a struct, and otherwise returns the input with the
error (`entrypoint`; the attribute's own tokens are not read). -/
def entrypoint (parse2 : TokenStream → Except Error Item) (_attr input : TokenStream) :
    TokenStream :=
  let result := match parse2 input with
    | .ok (.struct item) => core item
    | .ok _ => .error (.new "the `linked::object` attribute must be applied to a struct")
    | .error e => .error e
  match result with
  | .ok r => r
  | .error e => tokenStreamAndError input e

end Folo.LinkedObject
