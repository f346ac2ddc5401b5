import Folo.Syn.Punctuated

/-!
# Attributes, visibility and generics

Model of the parts of `syn` that `linked::object` carries from its input to its output without
looking inside them: attributes, visibility, generic parameters, where clauses, and
`Generics::split_for_impl` with the three printers it leads to.

Types, trait bounds, where predicates, const parameter defaults and the insides of attributes
and of `pub(...)` are kept as the tokens `syn` prints for them. The optional tokens that `syn`
prints through `TokensOrDefault` (`<`, `>`, `:` and `=` of generics) are left out: the printed
output does not depend on whether they were present.

Rust → Lean naming: `Generics::split_for_impl` → `Generics.splitForImpl`;
`ImplGenerics`, `TypeGenerics` keep their names; `FilterAttrs::outer` → `outer`.
-/

namespace Folo.Syn

/-- `syn::AttrStyle`. -/
inductive AttrStyle
  | outer
  | inner
  deriving DecidableEq, Repr

/-- An attribute `#[...]` or `#![...]` (`syn::Attribute`); its meta kept as tokens. -/
structure Attribute where
  style : AttrStyle
  tokens : TokenStream
  deriving DecidableEq, Repr

instance : ToTokens Attribute :=
  ⟨fun a => [punct '#'] ++ (if a.style = .inner then [punct '!'] else []) ++
    [.group .bracket a.tokens]⟩

/-- The outer attributes (`FilterAttrs::outer`). -/
def outer (attrs : List Attribute) : List Attribute := attrs.filter (·.style = .outer)

/-- `syn::Visibility`: `pub`, `pub(...)` with what stands in the parentheses, or nothing. -/
inductive Visibility
  | public
  | restricted (path : TokenStream)
  | inherited
  deriving DecidableEq, Repr

instance : ToTokens Visibility :=
  ⟨fun | .public => [.ident "pub"]
       | .restricted path => [.ident "pub", .group .parenthesis path]
       | .inherited => []⟩

/-- `syn::Lifetime`, printed as a joint `'` and its identifier. -/
structure Lifetime where
  ident : Ident
  deriving DecidableEq, Repr

instance : ToTokens Lifetime := ⟨fun l => [.punct '\'' .joint, .ident l.ident.name]⟩

/-- `syn::LifetimeParam`: `'a: 'b + 'c`. -/
structure LifetimeParam where
  attrs : List Attribute
  lifetime : Lifetime
  bounds : Punctuated Lifetime Plus
  deriving DecidableEq, Repr

/-- `syn::TypeParam`: `T: Bound + Bound = Default`, each bound kept as tokens. -/
structure TypeParam where
  attrs : List Attribute
  ident : Ident
  bounds : Punctuated TokenStream Plus
  default : Option TokenStream
  deriving DecidableEq, Repr

/-- `syn::ConstParam`: `const N: Ty = Default`. -/
structure ConstParam where
  attrs : List Attribute
  ident : Ident
  ty : TokenStream
  default : Option TokenStream
  deriving DecidableEq, Repr

/-- `syn::GenericParam`. -/
inductive GenericParam
  | lifetime (param : LifetimeParam)
  | type (param : TypeParam)
  | const (param : ConstParam)
  deriving DecidableEq, Repr

/-- `syn::WhereClause`: `where` and its predicates, each kept as tokens. -/
structure WhereClause where
  predicates : Punctuated TokenStream Comma
  deriving DecidableEq, Repr

/-- `syn::Generics`: the parameters between `<` and `>`, and the where clause. -/
structure Generics where
  params : Punctuated GenericParam Comma
  whereClause : Option WhereClause
  deriving DecidableEq, Repr

/-- `: bounds` when there are bounds, as the printers of parameters write it. -/
def boundsTokens {T : Type} [ToTokens T] (bounds : Punctuated T Plus) : TokenStream :=
  if bounds.isEmpty then [] else punct ':' :: toTokens bounds

/-- `= default` when there is a default. -/
def defaultTokens (default : Option TokenStream) : TokenStream :=
  default.elim [] (punct '=' :: ·)

instance : ToTokens LifetimeParam :=
  ⟨fun p => toTokens (outer p.attrs) ++ toTokens p.lifetime ++ boundsTokens p.bounds⟩

/-- A type parameter without its default, as `ImplGenerics` prints it. -/
def TypeParam.withoutDefault (p : TypeParam) : TokenStream :=
  toTokens (outer p.attrs) ++ toTokens p.ident ++ boundsTokens p.bounds

/-- A const parameter without its default, as `ImplGenerics` prints it. -/
def ConstParam.withoutDefault (p : ConstParam) : TokenStream :=
  toTokens (outer p.attrs) ++ [.ident "const"] ++ toTokens p.ident ++ punct ':' :: p.ty

instance : ToTokens GenericParam :=
  ⟨fun | .lifetime p => toTokens p
       | .type p => p.withoutDefault ++ defaultTokens p.default
       | .const p => p.withoutDefault ++ defaultTokens p.default⟩

/-- Whether a parameter is a lifetime. -/
def GenericParam.isLifetime : GenericParam → Bool
  | .lifetime _ => true
  | _ => false

/-- The two loops shared by the printers of `Generics`, `ImplGenerics` and `TypeGenerics`:
nothing when there are no parameters; otherwise `<`, the lifetimes first and then the other
parameters, each printed by `param` and followed by its own comma, with one comma added
between the two groups when the lifetimes did not end in one, and `>`. -/
def paramsTokens (param : GenericParam → TokenStream) (params : Punctuated GenericParam Comma) :
    TokenStream :=
  if params.isEmpty then [] else
    let pair := fun (x : GenericParam × Option Comma) => param x.1 ++ toTokens x.2
    let lifetimes := params.pairs.filter (·.1.isLifetime)
    let others := params.pairs.filter (!·.1.isLifetime)
    let trailingOrEmpty := lifetimes.getLast?.all (·.2.isSome)
    punct '<' :: lifetimes.flatMap pair ++
      (if trailingOrEmpty || others.isEmpty then [] else [punct ',']) ++
      others.flatMap pair ++ [punct '>']

instance : ToTokens WhereClause :=
  ⟨fun w => if w.predicates.isEmpty then [] else .ident "where" :: toTokens w.predicates⟩

/-- The parameters with bounds and defaults (`impl ToTokens for Generics`); the where clause
is printed by the item that owns the generics. -/
instance : ToTokens Generics := ⟨fun g => paramsTokens toTokens g.params⟩

/-- The generics of an `impl` header (`syn::ImplGenerics`). -/
structure ImplGenerics where
  generics : Generics
  deriving DecidableEq, Repr

/-- The generics after the type name of an `impl` header (`syn::TypeGenerics`). -/
structure TypeGenerics where
  generics : Generics
  deriving DecidableEq, Repr

/-- Parameters with their bounds but without defaults, which an `impl` may not have. -/
instance : ToTokens ImplGenerics :=
  ⟨fun g => paramsTokens
    (fun | .lifetime p => toTokens p | .type p => p.withoutDefault | .const p => p.withoutDefault)
    g.generics.params⟩

/-- Parameters by name only: lifetimes without bounds, types and consts by identifier. -/
instance : ToTokens TypeGenerics :=
  ⟨fun g => paramsTokens
    (fun | .lifetime p => toTokens p.lifetime | .type p => toTokens p.ident
         | .const p => toTokens p.ident)
    g.generics.params⟩

/-- `Generics::split_for_impl`: the generics of an `impl` header, of the type it is for, and
the where clause. -/
def Generics.splitForImpl (g : Generics) : ImplGenerics × TypeGenerics × Option WhereClause :=
  (⟨g⟩, ⟨g⟩, g.whereClause)

end Folo.Syn
