import Folo.Linked.Object

/-!
# What `linked::object` expands to

`core` writes its three impls as tokens. This module gives them as syntax (a trait, the type the
impl is for, the generics, one method with its signature and body), with a printer that spells
types, paths and calls the way `quote!` does. It then proves that the output of `entrypoint` is,
for every input and every parser:

* for a struct with named fields, the printed struct with `linkField` appended to its fields,
  then the printed `objectImpl`, `cloneImpl` and `fromImpl` (`core_named`);
* for anything else, the input tokens followed by the error (`entrypoint_not_struct`,
  `entrypoint_parse_error`, and `core_not_named` for tuple and unit structs).

The headline `entrypoint_expansion` puts the branches together.
-/

namespace Folo.LinkedObject

open Folo.Syn

/-- A path, `::a::b` from the crate root or `a::b` otherwise. -/
def pathTokens : Bool → List String → TokenStream
  | true, segments => globalPath segments
  | false, [] => []
  | false, s :: segments => .ident s :: globalPath segments

/-- A type as the generated code writes one: a path, a path whose last segment takes one type
argument, or the annotated struct with its type generics (`#name #type_generics`). -/
inductive Ty
  | path (global : Bool) (segments : List String)
  | generic (global : Bool) (segments : List String) (arg : Ty)
  | named (name : Ident) (generics : TypeGenerics)

/-- Prints a type whose closing `>`, if it has one, has spacing `close`: a `>` directly followed
by another is joint, as `quote!` spells `>>`. -/
def Ty.print : Ty → Spacing → TokenStream
  | .path global segments, _ => pathTokens global segments
  | .generic global segments arg, close =>
    pathTokens global segments ++ punct '<' :: arg.print .joint ++ [.punct '>' close]
  | .named name generics, _ => toTokens name ++ toTokens generics

/-- An expression as the generated methods write one. -/
inductive Expr
  | var (name : String)
  | field (base : Expr) (member : String)
  | methodCall (receiver : Expr) (method : String)
  | call (global : Bool) (path : List String) (arg : Expr)

/-- `x`, `base.member`, `receiver.method()` and `path(arg)`. -/
def Expr.print : Expr → TokenStream
  | .var x => [.ident x]
  | .field base member => base.print ++ [punct '.', .ident member]
  | .methodCall receiver method =>
    receiver.print ++ [punct '.', .ident method, .group .parenthesis []]
  | .call global path arg => pathTokens global path ++ [.group .parenthesis arg.print]

/-- The parameter of a generated method: `&self`, or `name: Ty`. -/
inductive FnArg
  | refSelf
  | typed (name : String) (ty : Ty)

instance : ToTokens FnArg :=
  ⟨fun | .refSelf => [punct '&', .ident "self"]
       | .typed name ty => .ident name :: punct ':' :: ty.print .alone⟩

/-- A method `fn name(input) -> output { body }`. -/
structure ImplFn where
  name : String
  input : FnArg
  output : Ty
  body : Expr

instance : ToTokens ImplFn :=
  ⟨fun f => .ident "fn" :: .ident f.name :: .group .parenthesis (toTokens f.input) :: rArrow ++
    f.output.print .alone ++ [.group .brace f.body.print]⟩

/-- A trait impl `impl<..> Trait for Type where .. { items }`. -/
structure ItemImpl where
  generics : ImplGenerics
  trait : Ty
  selfTy : Ty
  whereClause : Option WhereClause
  items : List ImplFn

instance : ToTokens ItemImpl :=
  ⟨fun i => .ident "impl" :: toTokens i.generics ++ i.trait.print .alone ++ .ident "for" ::
    i.selfTy.print .alone ++ toTokens i.whereClause ++ [.group .brace (toTokens i.items)]⟩

@[simp] lemma toTokens_refSelf : toTokens FnArg.refSelf = [punct '&', .ident "self"] := rfl

@[simp] lemma toTokens_typed (name : String) (ty : Ty) :
    toTokens (FnArg.typed name ty) = .ident name :: punct ':' :: ty.print .alone := rfl

@[simp] lemma toTokens_implFn (f : ImplFn) :
    toTokens f = .ident "fn" :: .ident f.name :: .group .parenthesis (toTokens f.input) ::
      rArrow ++ f.output.print .alone ++ [.group .brace f.body.print] := rfl

@[simp] lemma toTokens_itemImpl (i : ItemImpl) :
    toTokens i = .ident "impl" :: toTokens i.generics ++ i.trait.print .alone ++ .ident "for" ::
      i.selfTy.print .alone ++ toTokens i.whereClause ++ [.group .brace (toTokens i.items)] := rfl

/-- `Self`. -/
def selfTy : Ty := .path false ["Self"]

/-- `::linked::Family<T>`. -/
def familyOf (t : Ty) : Ty := .generic true ["linked", "Family"] t

/-- The annotated struct as a type, `#name #type_generics`. -/
def structTy (s : ItemStruct) : Ty := .named s.ident s.generics.splitForImpl.2.1

/-- An impl of `trait` for the struct with the struct's impl generics, type generics and where
clause, holding one method: the header `core` writes for each of its impls. -/
def traitImpl (s : ItemStruct) (trait : Ty) (method : ImplFn) : ItemImpl where
  generics := s.generics.splitForImpl.1
  trait := trait
  selfTy := structTy s
  whereClause := s.generics.splitForImpl.2.2
  items := [method]

/-- `impl ::linked::Object`: `family(&self)` returns what the link field's `family()` returns. -/
def objectImpl (s : ItemStruct) : ItemImpl :=
  traitImpl s (.path true ["linked", "Object"])
    { name := "family", input := .refSelf, output := familyOf selfTy
      body := .methodCall (.field (.var "self") "__private_linked_link") "family" }

/-- `impl Clone`: `clone(&self)` hands `self` to `::linked::__private::clone` and reads no
field itself. -/
def cloneImpl (s : ItemStruct) : ItemImpl :=
  traitImpl s (.path false ["Clone"])
    { name := "clone", input := .refSelf, output := selfTy
      body := .call true ["linked", "__private", "clone"] (.var "self") }

/-- `impl From<::linked::Family<Self>>`: `from(family)` is `family.__private_into()`. -/
def fromImpl (s : ItemStruct) : ItemImpl :=
  traitImpl s (.generic true ["std", "convert", "From"] (familyOf (structTy s)))
    { name := "from", input := .typed "family" (familyOf (structTy s)), output := selfTy
      body := .methodCall (.var "family") "__private_into" }

/-- On a struct with named fields, `core` emits the struct with `linkField` pushed onto its
fields, then the three impls. -/
lemma core_named {s : ItemStruct} {named : Punctuated Field Comma} (h : s.fields = .named named) :
    core s = .ok (toTokens { s with fields := .named (named.push linkField) } ++
      toTokens [objectImpl s, cloneImpl s, fromImpl s]) := by
  simp only [core, h, Except.ok.injEq, toTokens_list, List.flatMap_cons, List.flatMap_nil,
    toTokens_itemImpl, toTokens_implFn, objectImpl, cloneImpl, fromImpl, traitImpl, structTy,
    familyOf, selfTy, Ty.print, Expr.print, pathTokens, toTokens_refSelf, toTokens_typed,
    globalPath, punct, List.append_assoc, List.cons_append, List.nil_append, List.append_nil,
    List.singleton_append]

/-- The struct of the crate's `smoke_test`, `struct Foo {}`. -/
def smokeFoo : ItemStruct := ⟨[], .inherited, ⟨"Foo"⟩, ⟨.new, none⟩, .named .new⟩

/-- The fields of the struct of the crate's `smoke_test_with_generics`, with their trailing comma. -/
def smokeGenericsFields : Punctuated Field Comma :=
  ⟨[(⟨[], .inherited, some ⟨"something"⟩, [.ident "X"]⟩, ⟨⟩),
    (⟨[], .inherited, some ⟨"something_else"⟩,
      [punct '&', .punct '\'' .joint, .ident "y", .ident "Y"]⟩, ⟨⟩)], none⟩

/-- The struct of the crate's `smoke_test_with_generics`,
`struct Foo<'y, T: Clone, X> where X: Debug { something: X, something_else: &'y Y, }`. -/
def smokeGenerics : ItemStruct :=
  ⟨[], .inherited, ⟨"Foo"⟩,
    ⟨⟨[(.lifetime ⟨[], ⟨⟨"y"⟩⟩, .new⟩, ⟨⟩), (.type ⟨[], ⟨"T"⟩, ⟨[], some [.ident "Clone"]⟩, none⟩, ⟨⟩)],
        some (.type ⟨[], ⟨"X"⟩, .new, none⟩)⟩,
      some ⟨⟨[], some [.ident "X", punct ':', .ident "Debug"]⟩⟩⟩,
    .named smokeGenericsFields⟩

/- The crate's `smoke_test`: `struct Foo {}` gives the tokens of the test's `expected`. -/
example : core smokeFoo = .ok (
    [.ident "struct", .ident "Foo", .group .brace ([punct '#', .group .bracket [.ident "doc",
      .group .parenthesis [.ident "hidden"]], .ident "__private_linked_link", punct ':'] ++
      globalPath ["linked", "__private", "Link"] ++ [punct '<', .ident "Self", punct '>'])] ++
    .ident "impl" :: globalPath ["linked", "Object"] ++ [.ident "for", .ident "Foo",
      .group .brace ([.ident "fn", .ident "family", .group .parenthesis [punct '&', .ident "self"]] ++
        rArrow ++ globalPath ["linked", "Family"] ++ [punct '<', .ident "Self", punct '>',
        .group .brace [.ident "self", punct '.', .ident "__private_linked_link", punct '.',
          .ident "family", .group .parenthesis []]])] ++
    [.ident "impl", .ident "Clone", .ident "for", .ident "Foo",
      .group .brace ([.ident "fn", .ident "clone", .group .parenthesis [punct '&', .ident "self"]] ++
        rArrow ++ [.ident "Self", .group .brace (globalPath ["linked", "__private", "clone"] ++
          [.group .parenthesis [.ident "self"]])])] ++
    .ident "impl" :: globalPath ["std", "convert", "From"] ++ punct '<' ::
      globalPath ["linked", "Family"] ++ [punct '<', .ident "Foo", .punct '>' .joint, punct '>',
      .ident "for", .ident "Foo", .group .brace ([.ident "fn", .ident "from", .group .parenthesis
        ([.ident "family", punct ':'] ++ globalPath ["linked", "Family"] ++
          [punct '<', .ident "Foo", punct '>'])] ++
        rArrow ++ [.ident "Self", .group .brace [.ident "family", punct '.',
          .ident "__private_into", .group .parenthesis []]])]) := rfl

/-- On a tuple or unit struct, `core` fails with the named-fields message. -/
lemma core_not_named {s : ItemStruct} (h : ∀ named, s.fields ≠ .named named) :
    core s = .error
      (.new "the `linked::object` attribute must be applied to a struct with named fields") := by
  cases hf : s.fields with
  | named named => exact absurd hf (h named)
  | unnamed | unit => simp only [core, hf]

variable (parse2 : TokenStream → Except Error Item) (attr input : TokenStream)

/-- A struct goes to `core`, whose error is returned after the input. -/
lemma entrypoint_struct {s : ItemStruct} (h : parse2 input = .ok (.struct s)) :
    entrypoint parse2 attr input =
      match core s with | .ok r => r | .error e => input ++ e.toCompileError := by
  simp only [entrypoint, h]
  rfl

/-- An item that is not a struct gives the input and the struct message. -/
lemma entrypoint_not_struct {item : Item} (h : parse2 input = .ok item)
    (hs : ∀ s, item ≠ .struct s) :
    entrypoint parse2 attr input = input ++
      (Error.new "the `linked::object` attribute must be applied to a struct").toCompileError := by
  cases item <;> first | exact absurd rfl (hs _) | simp [entrypoint, h, tokenStreamAndError]

/-- Tokens that do not parse give the input and the parser's error. -/
lemma entrypoint_parse_error {e : Error} (h : parse2 input = .error e) :
    entrypoint parse2 attr input = input ++ e.toCompileError := by
  simp [entrypoint, h, tokenStreamAndError]

/-- What `linked::object` expands to. When the input parses as a struct with named fields, the
output is that struct with its field list extended by exactly `linkField` at the end, then its
`Object`, `Clone` and `From` impls; otherwise it is the input followed by a compile error. -/
theorem entrypoint_expansion :
    (∀ s named, parse2 input = .ok (.struct s) → s.fields = .named named →
      (named.push linkField).values = named.values ++ [linkField] ∧
      entrypoint parse2 attr input =
        toTokens ({ s with fields := .named (named.push linkField) } : ItemStruct) ++
          toTokens [objectImpl s, cloneImpl s, fromImpl s]) ∧
    ((¬ ∃ s named, parse2 input = .ok (.struct s) ∧ s.fields = .named named) →
      ∃ e : Error, entrypoint parse2 attr input = input ++ e.toCompileError ∧
        ContainsCompileError (entrypoint parse2 attr input)) := by
  refine ⟨fun s named hp hf => ⟨Punctuated.values_push _ _, ?_⟩, fun hn => ?_⟩
  · rw [entrypoint_struct parse2 attr input hp, core_named hf]
  · suffices ∃ e : Error, entrypoint parse2 attr input = input ++ e.toCompileError by
      obtain ⟨e, he⟩ := this
      refine ⟨e, he, he ▸ ?_⟩
      obtain ⟨m, hm⟩ := e.containsCompileError
      exact ⟨m, hm.trans (List.suffix_append _ _).isInfix⟩
    cases hp : parse2 input with
    | error e => exact ⟨e, entrypoint_parse_error parse2 attr input hp⟩
    | ok item =>
      cases item
      case struct s =>
        refine ⟨.new "the `linked::object` attribute must be applied to a struct with named fields",
          ?_⟩
        rw [entrypoint_struct parse2 attr input hp, core_not_named fun named hf => hn ⟨s, named, hp, hf⟩]
      all_goals exact ⟨_, entrypoint_not_struct parse2 attr input hp fun _ h => nomatch h⟩

theorem entrypoint_expansion_smokeGenerics :
    entrypoint (fun _ => .ok (.struct smokeGenerics)) [] [] =
      [.ident "struct", .ident "Foo", punct '<', .punct '\'' .joint, .ident "y", punct ',',
        .ident "T", punct ':', .ident "Clone", punct ',', .ident "X", punct '>', .ident "where",
        .ident "X", punct ':', .ident "Debug", .group .brace ([.ident "something", punct ':',
          .ident "X", punct ',', .ident "something_else", punct ':', punct '&', .punct '\'' .joint,
          .ident "y", .ident "Y", punct ',', punct '#', .group .bracket [.ident "doc",
          .group .parenthesis [.ident "hidden"]], .ident "__private_linked_link", punct ':'] ++
          globalPath ["linked", "__private", "Link"] ++ [punct '<', .ident "Self", punct '>'])] ++
      [.ident "impl", punct '<', .punct '\'' .joint, .ident "y", punct ',', .ident "T", punct ':',
        .ident "Clone", punct ',', .ident "X", punct '>'] ++ globalPath ["linked", "Object"] ++
      [.ident "for", .ident "Foo", punct '<', .punct '\'' .joint, .ident "y", punct ',', .ident "T",
        punct ',', .ident "X", punct '>', .ident "where", .ident "X", punct ':', .ident "Debug",
        .group .brace ([.ident "fn", .ident "family", .group .parenthesis [punct '&', .ident "self"]] ++
          rArrow ++ globalPath ["linked", "Family"] ++ [punct '<', .ident "Self", punct '>',
          .group .brace [.ident "self", punct '.', .ident "__private_linked_link", punct '.',
            .ident "family", .group .parenthesis []]])] ++
      [.ident "impl", punct '<', .punct '\'' .joint, .ident "y", punct ',', .ident "T", punct ':',
        .ident "Clone", punct ',', .ident "X", punct '>', .ident "Clone", .ident "for", .ident "Foo",
        punct '<', .punct '\'' .joint, .ident "y", punct ',', .ident "T", punct ',', .ident "X",
        punct '>', .ident "where", .ident "X", punct ':', .ident "Debug",
        .group .brace ([.ident "fn", .ident "clone", .group .parenthesis [punct '&', .ident "self"]] ++
          rArrow ++ [.ident "Self", .group .brace (globalPath ["linked", "__private", "clone"] ++
            [.group .parenthesis [.ident "self"]])])] ++
      [.ident "impl", punct '<', .punct '\'' .joint, .ident "y", punct ',', .ident "T", punct ':',
        .ident "Clone", punct ',', .ident "X", punct '>'] ++ globalPath ["std", "convert", "From"] ++
      punct '<' :: globalPath ["linked", "Family"] ++ [punct '<', .ident "Foo", punct '<',
        .punct '\'' .joint, .ident "y", punct ',', .ident "T", punct ',', .ident "X", punct '>',
        .punct '>' .joint, punct '>', .ident "for", .ident "Foo", punct '<', .punct '\'' .joint,
        .ident "y", punct ',', .ident "T", punct ',', .ident "X", punct '>', .ident "where",
        .ident "X", punct ':', .ident "Debug",
        .group .brace ([.ident "fn", .ident "from", .group .parenthesis ([.ident "family", punct ':'] ++
          globalPath ["linked", "Family"] ++ [punct '<', .ident "Foo", punct '<', .punct '\'' .joint,
            .ident "y", punct ',', .ident "T", punct ',', .ident "X", punct '>', punct '>'])] ++
          rArrow ++ [.ident "Self", .group .brace [.ident "family", punct '.',
            .ident "__private_into", .group .parenthesis []]])] :=
  ((entrypoint_expansion (fun _ => .ok (.struct smokeGenerics)) [] []).1 smokeGenerics
    smokeGenericsFields rfl rfl).2.trans rfl

end Folo.LinkedObject
