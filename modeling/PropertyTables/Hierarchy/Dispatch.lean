import PropertyTables.Generics.Erasure

/-! # Dispatch

* `Registry.dispatchOrder`: where a receiver's type looks for a body, in order: its superclass
  chain, then the interfaces of the chain, the last declared first, each before its own
  superinterfaces.
* `Method.isCandidate`: a method that could stand for another by its name, body and parameter count.
* `findImplementation`: the method whose body runs.
-/

namespace PropertyTables
set_option autoImplicit false

/-! ## Where to look -/

/-- The types that dispatch asks, in order. -/
def Registry.dispatchOrder (r : Registry) (receiver : TypeId) : List TypeId :=
  let chain := r.superclassChain receiver
  chain ++ r.interfaceWalk List.reverse chain (chain.flatMap r.superinterfaces).reverse

/-! ## What to look for -/

/-- Whether a method has the wanted name and parameter count, a body and a target. -/
def Method.isCandidate (m : Method) (wanted : Signature) : Bool :=
  m.name == wanted.name && m.body.isSome && !m.modifiers.isStatic
    && m.params.length == wanted.params.length

/-- The first method of the wanted signature; failing that, the first that differs in the return
type only, which is `covariant` if it was met before. -/
def bestOverride (wanted : Signature) (covariant : Option Method) :
    List Method → Growing (Option Method)
  | [] => return covariant
  | m :: rest =>
    if m.isCandidate wanted then do
      let signature ← m.signature
      if signature.params ≠ wanted.params then bestOverride wanted covariant rest
      else if signature.returns = wanted.returns then return some m
      else bestOverride wanted (covariant.or (some m)) rest
    else bestOverride wanted covariant rest

/-- The best override of the first type that has one. -/
def firstOverride (wanted : Signature) : List TypeId → Growing (Option Method)
  | [] => return none
  | id :: rest => do
    let d ← Growing.read (·.find id)
    match ← bestOverride wanted none d.methods with
    | some m => return some m
    | none => firstOverride wanted rest

/-- The method whose body runs when `m` is called on an object of type `receiver`. -/
def findImplementation (receiver : TypeId) (m : Method) : Growing (Option Method) := do
  let wanted ← m.signature
  firstOverride wanted ((← get).dispatchOrder receiver)

end PropertyTables
