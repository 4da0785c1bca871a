import ScriptContainer.Proofs.ReadingBack
import ScriptContainer.Proofs.ScopeChains

/-!
# Import undoes export

References are looked up among records without code, which answer like the script itself. So every
spelling leads back to its record, and the document of a script becomes the script again.
-/

namespace ScriptContainer

lemma Registry.lookup_map {α : Type} [Named α] (r : Registry α) {g : α → α}
    (hg : ∀ x, Keyed.id (g x) = Keyed.id x) (hname : ∀ x, Named.name (g x) = Named.name x)
    (key : Key) :
    (r.map g hg).lookup key = (r.lookup key).map g := by
  cases key with
  | id id => exact r.get?_map id
  | name name =>
    simp only [lookup, records_map, List.find?_map, Function.comp_def, hname]

lemma Table.name_unbound (t : Table) : Named.name t.unbound = Named.name t := rfl

namespace Function

variable (f : Function) (key : Key)

lemma name_unbound : Named.name f.unbound = Named.name f := rfl

lemma findTable_unbound : f.unbound.findTable key = f.findTable key := by
  unfold findTable
  have hlookup : f.unbound.tables.lookup key = (f.tables.lookup key).map Table.unbound :=
    f.tables.lookup_map Table.id_unbound Table.name_unbound key
  rw [hlookup, Option.map_map]
  rfl

lemma findSymbol_unbound : f.unbound.findSymbol key = f.findSymbol key := by
  unfold findSymbol
  rw [findTable_unbound]
  rfl

end Function

namespace Script

variable (s : Script) (key : Key)

lemma get?_unbound (id : RecordId) :
    s.unbound.functions.get? id = (s.functions.get? id).map Function.unbound := by
  change (s.functions.map Function.unbound Function.id_unbound).get? id = _
  rw [Registry.get?_map]

lemma findTable_unbound : s.unbound.findTable key = s.findTable key := by
  unfold findTable
  have hlookup : s.unbound.tables.lookup key = (s.tables.lookup key).map Table.unbound :=
    s.tables.lookup_map Table.id_unbound Table.name_unbound key
  rw [hlookup, Option.map_map]
  rfl

lemma findFunction_unbound : s.unbound.findFunction key = s.findFunction key := by
  unfold findFunction
  have hlookup : s.unbound.functions.lookup key = (s.functions.lookup key).map Function.unbound :=
    s.functions.lookup_map Function.id_unbound Function.name_unbound key
  rw [hlookup, Option.map_map]
  rfl

lemma findSymbol_unbound : s.unbound.findSymbol key = s.findSymbol key := by
  unfold findSymbol
  rw [findTable_unbound, findFunction_unbound]
  rfl

end Script

lemma firstIn_unbound {α : Type} {find : Function → Option α} (h : ∀ f, find f.unbound = find f)
    (scopes : List Function) : firstIn (scopes.map Function.unbound) find = firstIn scopes find := by
  unfold firstIn
  rw [List.findSome?_map]
  exact congrArg (scopes.findSome? ·) (funext h)

namespace Context

/-- The context over the script without code. -/
def unbound (ctx : Context) : Context :=
  { ctx with script := ctx.script.unbound, scopes := ctx.scopes.map Function.unbound }

lemma binding_unbound (ctx : Context) : ctx.unbound.binding = ctx.binding := by
  have hresolve : ctx.unbound.resolve = ctx.resolve := by
    funext key
    unfold resolve
    rw [← ctx.script.findSymbol_unbound]
    unfold unbound
    rw [firstIn_unbound fun f => f.findSymbol_unbound key]
  have hvariable : ctx.unbound.findVariable = ctx.findVariable := by
    funext key
    unfold findVariable unbound
    rw [firstIn_unbound fun f => rfl]
    rfl
  have hlabel : ctx.unbound.findLabel = ctx.findLabel := by
    funext key
    unfold findLabel unbound
    rw [firstIn_unbound fun f => rfl]
  have htable : ctx.unbound.findTable = ctx.findTable := by
    funext key
    unfold findTable unbound
    rw [firstIn_unbound fun f => f.findTable_unbound key, ctx.script.findTable_unbound]
  have hfunction : ctx.unbound.findFunction = ctx.findFunction := by
    funext key
    unfold findFunction unbound
    rw [ctx.script.findFunction_unbound]
  have hcallee : ctx.unbound.findCallee = ctx.findCallee := by
    funext key
    unfold findCallee unbound
    rw [ctx.script.findFunction_unbound]
    rfl
  have himport : ctx.unbound.findImport = ctx.findImport := rfl
  unfold binding
  rw [hresolve, hvariable, hlabel, htable, hfunction, hcallee, himport]

lemma ofChain_unbound (s : Script) (scopes : List RecordId) :
    ofChain s.unbound scopes = (ofChain s scopes).unbound := by
  rw [ofChain_eq_under, ofChain_eq_under]
  simp only [Script.under, unbound, List.map_reverse, List.map_filterMap, s.get?_unbound]
  rfl

lemma ofCode_unbound (s : Script) (chains : Registry Chain) (f : Function) :
    ofCode s.unbound chains f.unbound = (ofCode s chains f).unbound := by
  unfold ofCode
  rw [show chains.get? f.unbound.id = chains.get? f.id from rfl]
  cases chains.get? f.id with
  | some chain => exact ofChain_unbound s chain.scopes
  | none => rfl

lemma findCallee_new_unbound (s : Script) (chains : Registry Chain) (f : Function) :
    (new s.unbound).findCallee = (ofCode s chains f).findCallee := by
  have hscript : (ofCode s chains f).script = s := by
    unfold ofCode
    cases chains.get? f.id with
    | some chain => exact congrArg Context.script (ofChain_eq_under s chain.scopes)
    | none => rfl
  funext key
  unfold findCallee
  rw [hscript]
  change orUnknown ((Option.map _ (s.unbound.findImport key)).or
    (Option.map _ (s.unbound.findFunction key))) _ _ = _
  rw [s.findFunction_unbound]
  rfl

lemma spelledCallee?_change (ctx : Context) (i : Instruction .bound) :
    Instruction.spelledCallee? (i.change ctx.spelling) = i.threadCallee?.map ctx.spelling.callee := by
  cases i <;> rfl

end Context

namespace Registry

variable {α δ σ ε : Type} [Keyed α]

/-- A run whose steps put one record after the other in its place puts all of them there. -/
lemma foldlM_replace {step : σ → δ → Except ε σ} {doc : α → δ} {put : Registry α → σ} {g : α → α}
    {xs : List α} (hn : (xs.map Keyed.id).Nodup) {q : Registry α}
    (hxs : ∀ x ∈ xs, q.get? (Keyed.id x) = some (g x))
    (hstep : ∀ x ∈ xs, ∀ q : Registry α, q.get? (Keyed.id x) = some (g x) →
      step (put q) (doc x) = .ok (put (q.replace x))) :
    (xs.map doc).foldlM step (put q) = .ok (put (xs.foldl replace q)) := by
  induction xs generalizing q with
  | nil => rfl
  | cons x xs ih =>
    rw [List.map_cons, List.nodup_cons] at hn
    rw [List.forall_mem_cons] at hxs hstep
    rw [List.map_cons, List.foldlM_cons, hstep.1 q hxs.1, ok_bind]
    refine ih hn.2 (fun y hy => ?_) hstep.2
    rw [get?_replace, if_neg, hxs.2 y hy]
    intro he
    exact hn.1 (he ▸ List.mem_map_of_mem hy)

lemma foldlM_map (r : Registry α) {g : α → α} (hg : ∀ x, Keyed.id (g x) = Keyed.id x)
    {step : σ → δ → Except ε σ} {doc : α → δ} (put : Registry α → σ)
    (hstep : ∀ x ∈ r.records, ∀ q : Registry α, q.get? (Keyed.id x) = some (g x) →
      step (put q) (doc x) = .ok (put (q.replace x))) :
    (r.records.map doc).foldlM step (put (r.map g hg)) = .ok (put r) := by
  rw [foldlM_replace r.nodup (fun x hx => ?_) hstep, foldl_replace_map]
  rw [get?_map, r.get?_of_mem hx]
  rfl

end Registry

lemma Script.replaceTable_eq_self {s : Script} {owner : Owner} {t : Table}
    (h : s.table? ⟨owner, t.id⟩ = some t) : s.replaceTable owner t = s := by
  have hmap : s.replaceTable owner t = s.mapTables (fun _ t => t) fun _ _ => rfl :=
    replaceTable_eq_mapTables h rfl rfl fun _ _ _ => rfl
  rw [hmap]
  exact mapTables_eq_self fun _ _ => rfl

namespace Document

lemma bindTable_ofRecord (ctx : Context) {owner : Owner} {s : Script} {t : ScriptContainer.Table}
    (htyped : t.IsTyped) (hfound : s.table? ⟨owner, t.id⟩ = some t.unbound)
    (hkeeps : ∀ refs, t.values = .vars refs → ∀ ref ∈ refs, ctx.findVariable (.id ref.id) = .ok ref) :
    bindTable ctx.unbound owner s (Table.ofRecord ctx t) = .ok (s.replaceTable owner t) := by
  cases hvalues : t.values with
  | vars refs =>
    have hdoc : (Table.ofRecord ctx t).values = .vars (refs.map ctx.spelling.var) := by
      change spellValues ctx t.values = _
      rw [hvalues]
      rfl
    have hrefs : (refs.map ctx.spelling.var).mapM ctx.binding.var = .ok refs := by
      rw [mapM_eq_ok_iff, List.forall₂_map_left_iff, List.forall₂_same]
      exact fun ref href => ctx.spelling_restores.var (hkeeps refs hvalues ref href)
    have hid : (Table.ofRecord ctx t).id = t.id := rfl
    have hbound : { t.unbound with length := UInt32.ofNat refs.length, values := .vars refs } = t := by
      have hlength : UInt32.ofNat refs.length = t.length := by
        rw [show refs.length = t.values.size by rw [hvalues]; rfl, htyped.length, UInt32.ofNat_toNat]
      rw [hlength, ← hvalues]
      rfl
    rw [bindTable, hdoc]
    dsimp only
    rw [ctx.binding_unbound, hrefs, ok_bind, hid, hfound]
    dsimp only
    rw [hbound]
    rfl
  | ints _ | floats _ | bytes _ =>
    have hplain : t.unbound = t := by
      refine htyped.unbound_eq fun refs he => ?_
      rw [hvalues] at he
      cases he
    rw [hplain] at hfound
    rw [Script.replaceTable_eq_self hfound, bindTable, Table.ofRecord]
    dsimp only
    rw [hvalues]
    rfl

lemma spawns_ofScript {s : Script} (h : s.KeepsReferences (s.scopeChains Function.spawns))
    {f : ScriptContainer.Function} (hf : f ∈ s.functions.records) :
    (ofScript s).spawns s.unbound f.unbound = f.spawns := by
  let ctx := Context.ofCode s (s.scopeChains Function.spawns) f
  have hfound : (ofScript s).functions.find? (fun found => found.id == f.unbound.id) =
      some (.ofRecord ((Context.new s).push f) ctx f) := by
    change (s.functions.records.map _).find? _ = _
    rw [List.find?_map]
    exact congrArg (Option.map _) (s.functions.get?_of_mem hf)
  rw [spawns, hfound]
  change ((f.code.map _).filterMap _).filterMap _ = f.code.filterMap _
  rw [List.filterMap_map, List.filterMap_filterMap]
  refine List.filterMap_congr fun i hi => ?_
  rw [Function.comp_apply, Context.spelledCallee?_change, Instruction.spawned?]
  have hi := h.change_ofCode hf hi
  rcases Instruction.threadCallee?_change hi with ⟨hnone, -⟩ | ⟨callee, found, hcallee, hfound, hsame⟩
  · rw [hnone]
    rfl
  · obtain rfl := Option.some.inj (hcallee.symm.trans hsame)
    have hfind := Context.bySpelling_eq_ok_iff.mp (ctx.spelling_restores.callee hfound)
    rw [hcallee, Option.map_some, Option.bind_some, Context.findCallee_new_unbound, hfind]
    cases callee <;> rfl

lemma foldlM_bindTable {s t : Script} {f : ScriptContainer.Function}
    (htyped : ∀ x ∈ f.tables.records, x.IsTyped)
    (hkeeps : ∀ x ∈ f.tables.records, ∀ refs, x.values = .vars refs →
      ∀ ref ∈ refs, ((Context.new s).push f).findVariable (.id ref.id) = .ok ref)
    (hfound : t.functions.get? f.id = some f.unbound) :
    (f.tables.records.map (Table.ofRecord ((Context.new s).push f))).foldlM
        (bindTable ((Context.new s).push f).unbound (.function f.id)) t =
      .ok { t with functions := t.functions.replace { f.unbound with tables := f.tables } } := by
  let own := (Context.new s).push f
  let put (q : Registry ScriptContainer.Table) : Script :=
    { t with functions := t.functions.replace { f.unbound with tables := q } }
  have hmem : f.id ∈ t.functions.ids := Registry.get?_isSome_iff.mp (by rw [hfound]; rfl)
  have hget (q : Registry ScriptContainer.Table) :
      (put q).functions.get? f.id = some { f.unbound with tables := q } :=
    Registry.get?_replace_self hmem
  have hstep : ∀ x ∈ f.tables.records, ∀ q : Registry ScriptContainer.Table,
      q.get? (Keyed.id x) = some x.unbound →
      bindTable own.unbound (.function f.id) (put q) (Table.ofRecord own x) =
        .ok (put (q.replace x)) := by
    intro x hx q hq
    have hplace : (put q).table? ⟨.function f.id, x.id⟩ = some x.unbound := by
      change ((put q).functions.get? f.id).bind _ = _
      rw [hget]
      exact hq
    rw [bindTable_ofRecord own (htyped x hx) hplace (hkeeps x hx)]
    rw [Script.replaceTable, Script.modifyFunction, Registry.modify_of_get? (hget q)]
    have hreplace : (put q).functions.replace { f.unbound with tables := q.replace x } =
        (put (q.replace x)).functions := Registry.replace_replace _ rfl
    exact congrArg (fun functions => Except.ok { t with functions }) hreplace
  have hstart : put (f.tables.map ScriptContainer.Table.unbound ScriptContainer.Table.id_unbound) = t := by
    change { t with functions := t.functions.replace f.unbound } = t
    rw [Registry.replace_eq_self hfound]
  have hrun : (f.tables.records.map (Table.ofRecord own)).foldlM
      (bindTable own.unbound (.function f.id)) (put (f.tables.map _ ScriptContainer.Table.id_unbound)) =
      .ok (put f.tables) := f.tables.foldlM_map _ put hstep
  rwa [hstart] at hrun

lemma bindFunction_ofRecord {s t : Script} (h : s.IsExportable)
    (hkeeps : s.KeepsReferences (s.scopeChains Function.spawns)) {f : ScriptContainer.Function}
    (hf : f ∈ s.functions.records) (hfound : t.functions.get? f.id = some f.unbound) :
    bindFunction s.unbound (s.scopeChains Function.spawns) t
        (.ofRecord ((Context.new s).push f) (.ofCode s (s.scopeChains Function.spawns) f) f) =
      .ok { t with functions := t.functions.replace f } := by
  let own := (Context.new s).push f
  let ctx := Context.ofCode s (s.scopeChains Function.spawns) f
  have hget : s.functions.get? f.id = some f := s.functions.get?_of_mem hf
  have hown : s.under [f.id] = own := by
    rw [← List.nil_append [f.id], Script.under_append hget]
    rfl
  have hentry (x : ScriptContainer.Table) (hx : x ∈ f.tables.records) :
      ((⟨.function f.id, x.id⟩ : TableRef), x) ∈ s.allTables :=
    List.mem_append_right _ (List.mem_flatMap.mpr ⟨f, hf, List.mem_map_of_mem hx⟩)
  have hvariable (x : ScriptContainer.Table) (hx : x ∈ f.tables.records) :
      ∀ refs, x.values = .vars refs → ∀ ref ∈ refs, own.findVariable (.id ref.id) = .ok ref := by
    rw [← hown]
    exact hkeeps.tables _ (hentry x hx)
  have htables := foldlM_bindTable (fun x hx => h.tables _ (hentry x hx)) hvariable hfound
  have hcode : (f.code.map fun i => i.change ctx.spelling).mapM
      (fun i : Instruction .spelled => i.change ctx.unbound.binding) = .ok f.code := by
    rw [mapM_eq_ok_iff, List.forall₂_map_left_iff, List.forall₂_same, ctx.binding_unbound]
    exact fun i hi => Instruction.restore ctx.spelling_restores (hkeeps.change_ofCode hf hi)
  have hrecord : s.unbound.functions.get? f.id = some f.unbound := by
    rw [s.get?_unbound, hget]
    rfl
  have hmem : f.id ∈ t.functions.ids := Registry.get?_isSome_iff.mp (by rw [hfound]; rfl)
  have hid : (Function.ofRecord own ctx f).id = f.id := rfl
  rw [bindFunction, hid, hrecord]
  dsimp only
  rw [Context.ofCode_unbound]
  refine bind_eq_ok_iff.mpr ⟨_, htables, bind_eq_ok_iff.mpr ⟨_, hcode, ?_⟩⟩
  let entered : ScriptContainer.Function := { f.unbound with tables := f.tables }
  have hplace : (t.functions.replace entered).get? f.id = some entered := Registry.get?_replace_self hmem
  have hreplace : (t.functions.replace entered).replace { entered with code := f.code } =
      t.functions.replace f := Registry.replace_replace _ rfl
  rw [Script.modifyFunction, Registry.modify_of_get? hplace]
  exact congrArg (fun functions => Except.ok { t with functions }) hreplace

end Document

/-- The document of a script becomes the script again: every reference is spelled so that looking it
up among the records of the document finds the record again. -/
theorem Script.toScript_ofScript {s : Script} (h : s.IsExportable)
    (hkeeps : s.KeepsReferences (s.scopeChains Function.spawns)) :
    (Document.ofScript s).toScript = .ok s := by
  let chains := s.scopeChains Function.spawns
  have hchains : s.unbound.scopeChains ((Document.ofScript s).spawns s.unbound) = chains :=
    scopeChains_map Function.id_unbound rfl (fun _ => rfl) fun f hf => Document.spawns_ofScript hkeeps hf
  have htables : (Document.ofScript s).tables.foldlM (Document.bindTable (.new s.unbound) .script)
      s.unbound = .ok { s.unbound with tables := s.tables } := by
    let put (q : Registry Table) : Script := { s.unbound with tables := q }
    have hrun : (s.tables.records.map (Document.Table.ofRecord (.new s))).foldlM
        (Document.bindTable (Context.new s).unbound .script) (put (s.tables.map _ Table.id_unbound)) =
        .ok (put s.tables) := by
      refine s.tables.foldlM_map _ put fun t ht q hq => ?_
      have hentry : ((⟨.script, t.id⟩ : TableRef), t) ∈ s.allTables :=
        List.mem_append_left _ (List.mem_map_of_mem ht)
      exact Document.bindTable_ofRecord (.new s) (h.tables _ hentry) hq (hkeeps.tables _ hentry)
    exact hrun
  have hfunctions : (Document.ofScript s).functions.foldlM (Document.bindFunction s.unbound chains)
      { s.unbound with tables := s.tables } = .ok s := by
    let put (q : Registry Function) : Script := { s with functions := q }
    refine s.functions.foldlM_map Function.id_unbound put fun f hf q hq => ?_
    exact Document.bindFunction_ofRecord h hkeeps hf hq
  rw [Document.toScript, Document.records_ofScript h, ok_bind]
  dsimp only
  rw [hchains, htables, ok_bind, hfunctions]

/-- Variables of the script that share a name or are named like a reference by number. -/
def namesakeVars : List Variable :=
  [⟨3, some "x", .static, .int, 0, .int 1⟩, ⟨4, some "x", .global, .float, 0, .float ⟨0x7fc00000⟩⟩,
    ⟨5, some "ref:3", .constant, .raw 2, 0, .raw 9⟩]

/-- A function that owns namesakes of the variables and starts the other function. -/
def namesakeStarter : Function :=
  let own : Variable := ⟨7, some "x", .owned, .string, 0, .string "x"⟩
  let list : Table := ⟨8, some "x", .variable, 2, 0, .vars [⟨.script, 4⟩, ⟨.function 1, 7⟩]⟩
  let sum := [.symbol (.variable ⟨.script, 4⟩), .symbol (.variable ⟨.script, 5⟩), .operator .add]
  let code := [.set ⟨.script, 3⟩ (.expr sum), .readTableLength ⟨.function 1, 8⟩,
    .thread ⟨.function 2, [], [⟨.function 1, 7⟩]⟩, .return]
  ({ Function.new 1 with name := some "x", code }.addVariable own).addTable list

/-- A function that uses a variable of its starter. -/
def namesakeStarted : Function :=
  { Function.new 2 with
    name := some "ref:1"
    isInline := true
    code := [.set ⟨.function 1, 7⟩ (.var ⟨.script, 5⟩), .return] }

/-- A script in which names say little. -/
def namesakes : Script :=
  ((namesakeVars.foldl Script.addVariable Script.new).addFunction namesakeStarter).addFunction
    namesakeStarted

lemma namesakes_isExportable : namesakes.IsExportable where
  added := ⟨namesakeVars, congrArg Script.vars (Script.foldl_addVariable namesakeVars .new)⟩
  untouched := by decide +kernel
  vars := by decide +kernel
  owned := by decide +kernel
  tables := by decide +kernel

set_option maxRecDepth 4000 in
lemma namesakes_keeps : namesakes.KeepsReferences (namesakes.scopeChains Function.spawns) := by
  have hchains : namesakes.scopeChains Function.spawns =
      ⟨[⟨1, [1]⟩, ⟨2, [1, 2]⟩], by decide⟩ := Registry.ext (by decide +kernel)
  rw [hchains]
  refine ⟨fun f hf chain hchain => ?_, fun entry hentry refs hrefs => ?_⟩
  · have hf : f ∈ [namesakeStarter, namesakeStarted] := hf
    rcases List.mem_pair.mp hf with rfl | rfl
    · obtain rfl : Chain.mk 1 [1] = chain := Option.some.inj hchain
      simp only [namesakeStarter, Function.addTable, Function.addVariable, List.forall_mem_cons]
      exact ⟨rfl, rfl, rfl, rfl, fun _ h => absurd h List.not_mem_nil⟩
    · obtain rfl : Chain.mk 2 [1, 2] = chain := Option.some.inj hchain
      simp only [namesakeStarted, List.forall_mem_cons]
      exact ⟨rfl, rfl, fun _ h => absurd h List.not_mem_nil⟩
  · obtain rfl := List.mem_singleton.mp hentry
    obtain rfl := TableValues.vars.inj hrefs
    simp only [List.forall_mem_cons]
    exact ⟨rfl, rfl, fun _ h => absurd h List.not_mem_nil⟩

theorem namesakes_return : namesakes.IsExportable ∧
    namesakes.KeepsReferences (namesakes.scopeChains Function.spawns) ∧
    (Document.ofScript namesakes).toScript = .ok namesakes :=
  ⟨namesakes_isExportable, namesakes_keeps,
    Script.toScript_ofScript namesakes_isExportable namesakes_keeps⟩

end ScriptContainer
