import PropertyTables.Generics.Erasure

/-! # Discovery of methods

* `Registry.classChain`: a type and its superclasses below the root type, of limited number.
* `Registry.discoveryOrder`: the types whose methods count: each class of the chain, followed by its
  interfaces and their superinterfaces that no earlier class led to.
* `collectMethods`: the methods of these types, the first of each signature, bridges left out.
-/

namespace PropertyTables
set_option autoImplicit false

namespace Registry

/-- The types from `id` upward, without the root type. A fault if there are more than `room` or if
one has no declaration; the fault names `limit`. -/
def classChain (r : Registry) (limit : Nat) : Nat → Option TypeId → Except Fault (List TypeId)
  | _, none => .ok []
  | 0, some id => if id = .object then .ok [] else .error (.recursionLimit limit)
  | room + 1, some id =>
    if id = .object then .ok []
    else do
      let d ← r.find id
      return id :: (← r.classChain limit room d.superclass?)

/-- The classes of a chain, each followed by the interfaces that a walk meets from it and that are
not in `visited` or met before. -/
def discoveryOrder (r : Registry) (visited : List TypeId) : List TypeId → List TypeId
  | [] => []
  | id :: rest =>
    let met := r.interfaceWalk (fun l => l) visited (r.superinterfaces id)
    id :: met ++ r.discoveryOrder (met ++ visited) rest

end Registry

/-- Adds the methods whose signature is new, leaving out bridges. -/
def addUnique (kept : List (Signature × Method)) : List Method →
    Growing (List (Signature × Method))
  | [] => return kept
  | m :: rest =>
    if m.modifiers.isBridge then addUnique kept rest
    else do
      let signature ← m.signature
      if kept.any (·.1 = signature) then addUnique kept rest
      else addUnique (kept ++ [(signature, m)]) rest

/-- Adds the methods of each type in turn. -/
def collectFrom (kept : List (Signature × Method)) : List TypeId →
    Growing (List (Signature × Method))
  | [] => return kept
  | id :: rest => do
    let d ← Growing.read (·.find id)
    collectFrom (← addUnique kept d.methods) rest

/-- The methods of a type's hierarchy, one of each signature, with at most `limit` classes below the
root type. -/
def collectMethods (type : TypeId) (limit : Nat) : Growing (List Method) := do
  let chain ← Growing.read (·.classChain limit limit (some type))
  let order := (← get).discoveryOrder [] chain
  return (← collectFrom [] order).map (·.2)

end PropertyTables
