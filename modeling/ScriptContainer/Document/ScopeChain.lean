import ScriptContainer.Context
import ScriptContainer.Region.Schedule

/-!
# Scope chains

The code of a function that is started as a thread before it has a place of its own stands inside
the code of its starter and sees the starter's scopes. The functions are gone through in the order
in which they are laid out, so each finds the same starter.
-/

namespace ScriptContainer

namespace Script

/-- The chains with those of a function and of the functions that it starts and that have none.
Chains are at most as long as there are functions. -/
def chainsFrom (s : Script) (spawns : Function → List RecordId) :
    Nat → List RecordId → Registry Chain → RecordId → Registry Chain
  | 0, _, chains, _ => chains
  | depth + 1, outer, chains, id =>
    match s.functions.get? id with
    | none => chains
    | some f =>
      let scopes := outer ++ [id]
      (spawns f).foldl (fun chains callee =>
        if chains.contains callee then chains else chainsFrom s spawns depth scopes chains callee)
        (chains.insert ⟨id, scopes⟩)

/-- The order in which functions are laid out: the last one first, inline functions after all
others. -/
def layoutOrder (s : Script) : List Function :=
  let functions := s.functions.records.reverse
  (functions.filter fun f => !f.isInline) ++ functions.filter Function.isInline

/-- The scope chain of every function, given the functions that each one starts. -/
def scopeChains (s : Script) (spawns : Function → List RecordId) : Registry Chain :=
  s.layoutOrder.foldl (fun chains f =>
    if chains.contains f.id then chains
    else chainsFrom s spawns (s.functions.size + 1) [] chains f.id) .empty

end Script

namespace Context

/-- The context in which the functions of a chain have been entered in order. -/
def ofChain (s : Script) (scopes : List RecordId) : Context :=
  scopes.foldl (fun ctx id =>
    match s.functions.get? id with
    | some f => ctx.push f
    | none => ctx) (.new s)

/-- The context of the code of a function: that of its chain, or else its own scope. -/
def ofCode (s : Script) (chains : Registry Chain) (f : Function) : Context :=
  match chains.get? f.id with
  | some chain => .ofChain s chain.scopes
  | none => (Context.new s).push f

end Context

end ScriptContainer
