import Folo.Linked.Expansion
import Folo.Linked.Runtime

/-!
# What the generated impls do

The bodies of the methods `linked::object` generates (`objectImpl`, `cloneImpl` and `fromImpl`
of `Folo.Linked.Expansion`) run here against the runtime of `Folo.Linked.Runtime`. The
evaluator knows the runtime's entry points the bodies call and nothing else, so a body that
copied fields, or called anything but the runtime, would be stuck.

* `objectImpl_family`, `cloneImpl_clone`, `fromImpl_from`: each generated method does exactly
  what the runtime's operation does.
* `fromImpl_family`: for every registered family, the generated `From` produces an instance, which
  reports that family through the generated `Object::family`.
* `cloneImpl_family`: for every instance of a registered family, the generated `Clone` returns the
  new instance that the family's recipe builds, linked to the same family.
* `entrypoint_runs`: end to end, for every parser and every input that parses as a struct with
  named fields, `entrypoint` prints the struct and three impls that run as the runtime's
  `family`, `clone` and `produce`.
-/

namespace Folo.LinkedObject

open Folo.Syn Folo.Linked

/-- A value the generated methods handle: an instance of the struct, the link field of one, or
a family handle. -/
inductive Value (α : Type)
  | inst (i : Instance α)
  | link (f : FamilyId)
  | family (f : FamilyId)

variable {σ α : Type}

/-- Runs a generated method body. A variable is looked up in `env`; the field
`__private_linked_link` of an instance is its link; `Link::family` gives the link's family;
`Family::__private_into` produces an instance of the family; `::linked::__private::clone(x)`
clones the instance `x`. Anything else is stuck (`none`). -/
def Expr.eval (env : String → Option (Value α)) :
    Expr → Runtime σ α → Option (Runtime σ α × Value α)
  | .var x, rt => (env x).map (rt, ·)
  | .field base member, rt => (base.eval env rt).bind fun
    | (rt, .inst i) => if member = "__private_linked_link" then some (rt, .link i.link) else none
    | _ => none
  | .methodCall receiver method, rt => (receiver.eval env rt).bind fun
    | (rt, .link f) => if method = "family" then some (rt, .family f) else none
    | (rt, .family f) =>
      if method = "__private_into" then (rt.produce f).map fun r => (r.1, .inst r.2) else none
    | _ => none
  | .call global path arg, rt => (arg.eval env rt).bind fun
    | (rt, .inst i) =>
      if global ∧ path = ["linked", "__private", "clone"] then
        (rt.clone i).map fun r => (r.1, .inst r.2)
      else none
    | _ => none

/-- The name a method's parameter is bound to. -/
def FnArg.name : FnArg → String
  | .refSelf => "self"
  | .typed name _ => name

/-- Calls the method `name` of an impl with `arg` bound to its parameter. -/
def ItemImpl.call (impl : ItemImpl) (name : String) (arg : Value α) (rt : Runtime σ α) :
    Option (Runtime σ α × Value α) :=
  (impl.items.find? (·.name = name)).bind fun f =>
    f.body.eval (fun x => if x = f.input.name then some arg else none) rt

variable (s : ItemStruct) (rt : Runtime σ α)

/-- The generated `Object::family` returns the family the instance links to and changes
nothing. -/
theorem objectImpl_family (i : Instance α) :
    (objectImpl s).call "family" (.inst i) rt = some (rt, .family i.family) := by
  simp [ItemImpl.call, objectImpl, traitImpl, Expr.eval, FnArg.name, Instance.family]

/-- The generated `Clone::clone` is the runtime's clone of the instance. -/
theorem cloneImpl_clone (i : Instance α) :
    (cloneImpl s).call "clone" (.inst i) rt = (rt.clone i).map fun r => (r.1, .inst r.2) := by
  simp [ItemImpl.call, cloneImpl, traitImpl, Expr.eval, FnArg.name]

/-- The generated `From::from` produces an instance of the family it is given. -/
theorem fromImpl_from (f : FamilyId) :
    (fromImpl s).call "from" (.family f) rt = (rt.produce f).map fun r => (r.1, .inst r.2) := by
  simp [ItemImpl.call, fromImpl, traitImpl, Expr.eval, FnArg.name]

/-- End to end: for every parser and every input that parses as a struct with named fields, the
output of `linked::object` is the struct with the link field, then three impls whose methods, run
against the runtime, do what the runtime does: `family` returns the instance's family, `clone` is
the runtime's clone of the instance, and `from` produces an instance of the family it is given. -/
theorem entrypoint_runs (parse2 : TokenStream → Except Error Item) (attr input : TokenStream)
    (s : ItemStruct) (named : Punctuated Field Comma)
    (hp : parse2 input = .ok (.struct s)) (hn : s.fields = .named named) :
    ∃ o c f : ItemImpl,
      entrypoint parse2 attr input =
        toTokens ({ s with fields := .named (named.push linkField) } : ItemStruct) ++
          toTokens [o, c, f] ∧
      ∀ {τ β : Type} (rt : Runtime τ β) (i : Instance β) (family : FamilyId),
        o.call "family" (.inst i) rt = some (rt, .family i.family) ∧
        c.call "clone" (.inst i) rt = (rt.clone i).map (fun r => (r.1, .inst r.2)) ∧
        f.call "from" (.family family) rt = (rt.produce family).map fun r => (r.1, .inst r.2) := by
  refine ⟨objectImpl s, cloneImpl s, fromImpl s, ?_, fun rt i family =>
    ⟨objectImpl_family s rt i, cloneImpl_clone s rt i, fromImpl_from s rt family⟩⟩
  rw [entrypoint_struct parse2 attr input hp, core_named hn]

theorem entrypoint_runs_smokeFoo :
    ∃ o c f : ItemImpl,
      entrypoint (fun _ => .ok (.struct smokeFoo)) [] [] =
        toTokens ({ smokeFoo with fields := .named (Punctuated.new.push linkField) } : ItemStruct) ++
          toTokens [o, c, f] ∧
      ∀ {τ β : Type} (rt : Runtime τ β) (i : Instance β) (family : FamilyId),
        o.call "family" (.inst i) rt = some (rt, .family i.family) ∧
        c.call "clone" (.inst i) rt = (rt.clone i).map (fun r => (r.1, .inst r.2)) ∧
        f.call "from" (.family family) rt = (rt.produce family).map fun r => (r.1, .inst r.2) :=
  entrypoint_runs (fun _ => .ok (.struct smokeFoo)) [] [] smokeFoo .new rfl rfl

end Folo.LinkedObject
