import ScriptContainer.Proofs.Declared
import ScriptContainer.Proofs.LooseCode
import ScriptContainer.Proofs.Produced

/-!
# Containers that are built again

A script that was parsed has what it takes to be parsed again after it has been built, but for the
places that building gives to its functions. These decide in which functions a body is entered, so that
a number may lead to another record than before, or to none.
-/

namespace ScriptContainer

lemma Function.fill_eq (inlined : List RecordId) (bodies : List (RecordId × Body .bound))
    (f : Function) : f.fill inlined bodies =
      { f with code := (f.fill inlined bodies).code, isInline := (f.fill inlined bodies).isInline } := by
  unfold fill
  split <;> rfl

lemma Table.name_fill (found : List (TableRef × TableValues VarRef)) (owner : Owner) (t : Table) :
    (t.fill found owner).name = t.name := by
  unfold fill
  split <;> rfl

namespace Findings

variable {found : Findings} {s : Script} {count : Nat}

lemma sameOutline_filled (found : Findings) (s : Script) : s.SameOutline (found.filled s) := by
  refine (Script.sameOutline_mapFunctions fun f => ?_).trans Script.sameOutline_mapTables
  rw [Function.fill_eq]
  rfl

lemma holdsStorable_filled (found : Findings) (h : s.HoldsStorable) :
    (found.filled s).HoldsStorable where
  functions := by
    intro x hx
    obtain ⟨filled, hfilled, rfl⟩ := List.mem_map.mp hx
    obtain ⟨f, hf, rfl⟩ := List.mem_map.mp hfilled
    obtain ⟨hdeclared, hname, hvars, htables, hlabels⟩ := h.functions f hf
    rw [Function.fill_eq]
    refine ⟨hdeclared, hname, hvars, fun x hx => ?_, hlabels⟩
    obtain ⟨t, ht, rfl⟩ := List.mem_map.mp hx
    rw [Table.name_fill]
    exact htables t ht
  tables := by
    intro x hx
    obtain ⟨t, ht, rfl⟩ := List.mem_map.mp hx
    rw [Table.name_fill]
    exact h.tables t ht
  imports := h.imports
  vars := h.vars
  temporaries := h.temporaries

lemma IsBound.hasRead_filled (h : found.IsBound s count) (hs : s.IsBlank) :
    ∀ f ∈ (found.filled s).functions.records, ∀ i ∈ f.code, s.HasRead i := by
  intro x hx i hi
  obtain ⟨filled, hfilled, rfl⟩ := List.mem_map.mp hx
  obtain ⟨f, hf, rfl⟩ := List.mem_map.mp hfilled
  dsimp only at hi
  unfold Function.fill at hi
  split at hi
  case h_1 entry hentry => exact h.bodies entry (List.mem_of_find?_eq_some hentry) i hi
  case h_2 =>
    rw [(hs.functions f hf).code] at hi
    cases hi

lemma IsBound.found_filled (h : found.IsBound s count) (hs : s.IsBlank) :
    ∀ entry ∈ (found.filled s).allTables, entry.2.values.Found (s.under entry.1.owner.scopes) := by
  intro x hx
  rw [filled, Script.allTables_mapTables, Script.allTables_mapFunctions fun f => by
    rw [Function.fill_eq]] at hx
  obtain ⟨entry, hentry, rfl⟩ := List.mem_map.mp hx
  have hplain := hs.isPlain_of_table? (Script.mem_allTables.mp hentry)
  dsimp only
  unfold Table.fill
  split
  case h_1 filling hfilling =>
    have hkey : filling.1 = ⟨entry.1.owner, entry.2.id⟩ := by simpa using List.find?_some hfilling
    have hlooked := h.looked filling (List.mem_of_find?_eq_some hfilling)
    rwa [hkey] at hlooked
  case h_2 =>
    intro refs hrefs ref href
    rw [hplain.refs refs hrefs] at href
    cases href

end Findings

namespace Context.IsScoped

variable {ctx : Context} (h : ctx.IsScoped)
include h

lemma firstIn_eq_none (hnothing : ∀ f ∈ ctx.script.functions.records, f.OwnsNothing) {α : Type}
    {find : Function → Option α} (hfind : ∀ f : Function, f.OwnsNothing → find f = none) :
    firstIn ctx.scopes find = none :=
  List.findSome?_eq_none_iff.mpr fun f hf => hfind f (hnothing f (h f hf))

/-- Where functions own nothing, it does not matter which ones are entered. -/
lemma wordBinding_keeps (hnothing : ∀ f ∈ ctx.script.functions.records, f.OwnsNothing)
    (scopes : List RecordId) :
    ctx.wordBinding.Then (ctx.script.under scopes).rebinding ctx.wordBinding := by
  have hunder := ctx.script.isScoped_under scopes
  have hnone (key : Key) (f : Function) (hf : f.OwnsNothing) := hf.findSymbol key
  constructor
  case symbol =>
    intro w symbol hfound
    obtain rfl := id_of_resolve hfound
    change (ctx.script.under scopes).resolve _ = ctx.resolve _
    rw [resolve, resolve, h.firstIn_eq_none hnothing (hnone _),
      hunder.firstIn_eq_none hnothing (hnone _)]
    rfl
  case var =>
    intro w ref hfound
    obtain rfl := id_of_findVariable hfound
    change (ctx.script.under scopes).findVariable _ = ctx.findVariable _
    have hnone (f : Function) (hf : f.OwnsNothing) := f.findVariable_eq_none (hnone (.id ref.id) f hf)
    rw [findVariable, findVariable, h.firstIn_eq_none hnothing hnone,
      hunder.firstIn_eq_none hnothing hnone]
    rfl
  case table =>
    intro w ref hfound
    obtain rfl := id_of_findTable hfound
    change (ctx.script.under scopes).findTable _ = ctx.findTable _
    have hnone (f : Function) (hf : f.OwnsNothing) := f.findTable_eq_none (hnone (.id ref.id) f hf)
    rw [findTable, findTable, h.firstIn_eq_none hnothing hnone, hunder.firstIn_eq_none hnothing hnone]
    rfl
  case label =>
    intro w ref hfound
    obtain rfl := id_of_findLabel hfound
    change (ctx.script.under scopes).findLabel _ = ctx.findLabel _
    have hnone (f : Function) (hf : f.OwnsNothing) := f.findLabel_eq_none (hnone (.id ref.id) f hf)
    rw [findLabel, findLabel, h.firstIn_eq_none hnothing hnone, hunder.firstIn_eq_none hnothing hnone]
  case callee =>
    intro w callee hfound
    obtain rfl := id_of_findCallee hfound
    cases callee <;> rfl
  case imported =>
    intro w id hfound
    obtain rfl := Script.id_of_findImport (orUnknown_eq_ok_iff.mp hfound)
    rfl
  case function =>
    intro w id hfound
    obtain rfl := Script.id_of_findFunction (orUnknown_eq_ok_iff.mp hfound)
    rfl
  case operator => exact fun hfound => hfound.symm

end Context.IsScoped

namespace Script

namespace Accounted

variable {bytes : Array UInt8} {s declared : Script} {base : Nat} {count : UInt32} {found : Findings}
variable (h : s.Accounted bytes declared base count found)
include h

lemma mem_functions {f : Function} (hf : f ∈ s.functions.records) :
    f ∈ (found.filled declared).functions.records ∨ f.IsLoose declared := by
  rw [h.functions_eq] at hf
  rcases Findings.mem_of_mem_addGaps hf with hf | hf
  · exact .inl hf
  · obtain ⟨gap, hgap, rfl⟩ := List.mem_map.mp hf
    exact .inr (h.isBound.gaps gap hgap)

lemma hasRead : ∀ f ∈ s.functions.records, ∀ i ∈ f.code, declared.HasRead i := by
  intro f hf
  rcases h.mem_functions hf with hf | hloose
  · exact h.isBound.hasRead_filled h.isBlank f hf
  · exact hloose.code

lemma ownsDeclared : s.OwnsDeclared := by
  intro f hf hundeclared
  rcases h.mem_functions hf with hf | hloose
  · rw [Findings.isDeclared_of_mem_filled h.isDeclared hf] at hundeclared
    cases hundeclared
  · exact hloose.toOwnsNothing

variable (hleaves : s.LeavesIds)
include hleaves

lemma shown_eq : s.shown = { found.filled declared with
    padding := { (found.filled declared).padding with code := found.trailing } } := by
  have hall : s.declared = (found.filled declared).functions.records :=
    h.declared_eq_filled_iff.mpr fun n hn => h.gapId_notMem (h.leavesIds_iff.mp hleaves) hn
  have hfunctions : s.shown.functions = (found.filled declared).functions := by
    refine Registry.ext ?_
    rw [records_shown, hall]
  have hrest : s = { found.filled declared with
      functions := s.functions
      padding := { (found.filled declared).padding with code := found.trailing } } := by
    rw [h.result, h.accounts.apply_eq, Findings.foldl_addGap]
  calc s.shown = { s with functions := (found.filled declared).functions } := by
        rw [← hfunctions]
        rfl
    _ = _ := congrArg (fun t : Script => { t with functions := (found.filled declared).functions }) hrest

lemma sameOutline : declared.SameOutline s.shown := by
  have hfilled := found.sameOutline_filled declared
  rw [h.shown_eq hleaves]
  exact ⟨hfilled.imports, hfilled.functions, hfilled.vars, hfilled.tables⟩

lemma isStorable : s.shown.IsStorable := by
  have hholds := found.holdsStorable_filled h.holdsStorable
  rw [h.shown_eq hleaves]
  exact HoldsStorable.isStorable { hholds with }

lemma isClear : s.IsClear :=
  fun f hf i hi _ hn => (h.hasRead f hf i hi).isClear (h.restsOn hleaves).includes hn

lemma keeps_of_ownsNothing (hnothing : ∀ f ∈ s.functions.records, f.OwnsNothing)
    (scopes : List RecordId) : ∀ f ∈ s.functions.records, ∀ i ∈ f.code, s.shown.Keeps scopes i := by
  have houtline := h.sameOutline hleaves
  have hdeclared : ∀ f ∈ declared.functions.records, f.OwnsNothing := by
    intro f hf
    obtain ⟨g, hg, hfg⟩ := houtline.exists_function (declared.functions.get?_of_mem hf)
    exact (hnothing g (Registry.mem_of_get? (get?_shown.mp hg).1)).of_outline hfg.symm
  intro f hf i hi
  obtain ⟨ctx, n, hscoped, rfl, hn, -⟩ := h.hasRead f hf i hi
  have hkept := Instruction.change_change (hscoped.wordBinding_keeps hdeclared scopes) hn
  exact Keeps.of_sameOutline (hkept.trans hn) houtline

lemma keepsShown {chains : Registry Chain}
    (hcode : ∀ f ∈ s.functions.records, ∀ chain, chains.get? f.id = some chain →
      ∀ i ∈ f.code, s.shown.Keeps chain.scopes i) : s.KeepsShown chains := by
  refine ⟨hcode, fun entry hentry refs hrefs ref href => ?_⟩
  rw [← allTables_shown h.ownsDeclared, h.shown_eq hleaves] at hentry
  have hfound := h.isBound.found_filled h.isBlank entry hentry refs hrefs ref href
  rwa [((h.sameOutline hleaves).under _).findVariable_eq]

end Accounted

variable {s after : Script} {options rebuilding : Options} {bytes : Array UInt8} {built : Built}

/-- A container that was parsed and is built again is parsed with the same declared functions, each of
them with the same code, as long as every reference in code leads back to its record under the chain
of functions in which the code is written. -/
theorem parse_rebuilt {emission : Emission} (hparse : parse options bytes = .ok s)
    (hbuild : build rebuilding s = .ok built after) (hemission : after.emit .empty = .ok emission)
    (hkeeps : ∀ f ∈ s.functions.records, ∀ chain, emission.chains.get? f.id = some chain →
      ∀ i ∈ f.code, s.shown.Keeps chain.scopes i)
    (hnests : s.NestsInDeclared emission.chains) (hleaves : s.LeavesIds)
    (hsize : built.bytes.size < 4 * UInt32.size) :
    ∃ parsed, parse rebuilding built.bytes = .ok parsed ∧
      List.Forall₂ Function.Retains s.declared parsed.declared ∧ after.CarriesOver parsed := by
  obtain ⟨declared, base, count, found, haccounted⟩ := exists_accounted hparse
  obtain ⟨laid, roots, stop, h⟩ := (build_outcome rebuilding s).of_ok hbuild
  obtain ⟨rfl, -⟩ := (h.standsAfter.emit_yields ⟨0, rfl⟩).of_ok hemission
  obtain ⟨parsed, hparsed, hcarries⟩ := h.exists_carriesOver (haccounted.isStorable hleaves)
    (haccounted.isClear hleaves) haccounted.ownsDeclared (haccounted.keepsShown hleaves hkeeps) hnests
    hleaves hsize
  refine ⟨parsed, hparsed, ?_, hcarries⟩
  rw [hcarries.declared]
  refine List.rel_filter (fun f g hfg => ?_) h.retains.functions
  dsimp only
  rw [hfg.isDeclared]

/-- A container in which a function stands before the one that starts it. -/
def detour : Array UInt8 :=
  (magic ++ bytesOfWords [11, 11, 34, 35, 36, 37, 38, 39, 0, 2,
    0, 1, 0, 0, 0, 4, 0, 0, 0, 0, 0, 0, 2, 0, 0, 4, 9, 0, 0, 0, 0, 0, 0, 0, 0, 0, 0,
    9, 317, Variable.temporaryBase, Variable.temporaryBase, 9, 6, 1, 8, 17, 9]).toArray

lemma detour_written : (scanned? (declaredIn detour) detour 156).bind (fun s =>
      (s.writing? .lenient).map fun written =>
        ((s.functions.records.map Function.span,
            decide (s.LeavesIds ∧ ∀ f ∈ s.functions.records, f.isDeclared = true ∧ f.OwnsNothing)),
          written.1.declared.map Function.span,
          (containerBytes written.1.sectionBytes written.2.writer.bytes.toList).length)) =
    some (([(0, 16), (16, 36)], true), [(16, 32), (0, 36)], 196) := by decide +kernel

/-- Building puts the function into the one that starts it. -/
theorem detour_returns : ∃ s built after parsed, parse .lenient detour = .ok s ∧
    s.functions.records.map Function.span = [(0, 16), (16, 36)] ∧
    build .lenient s = .ok built after ∧ parse .lenient built.bytes = .ok parsed ∧
    parsed.declared.map Function.span = [(16, 32), (0, 36)] ∧
    List.Forall₂ Function.Retains s.declared parsed.declared ∧ after.CarriesOver parsed := by
  have hopens : Opens detour 156 := by decide +kernel
  obtain ⟨s, hscanned, hwritten⟩ := Option.bind_eq_some_iff.mp detour_written
  have hparse := hopens.parse_of_scanned hscanned
  obtain ⟨built, after, emission, hbuild, hemission, hbytes, hfacts⟩ :=
    exists_build_of_writing hwritten
  obtain ⟨hread, hrest⟩ := Prod.mk.inj hfacts
  obtain ⟨hspans, hknown⟩ := Prod.mk.inj hread
  obtain ⟨hplaces, hlength⟩ := Prod.mk.inj hrest
  obtain ⟨hleaves, hfunctions⟩ := of_decide_eq_true hknown
  obtain ⟨declared, base, count, found, haccounted⟩ := exists_accounted hparse
  have hkeeps := haccounted.keeps_of_ownsNothing hleaves fun f hf => (hfunctions f hf).2
  have hsize : built.bytes.size < 4 * UInt32.size := by
    rw [← Array.length_toList, hbytes, hlength]
    decide
  obtain ⟨parsed, hparsed, hretains, hcarries⟩ := parse_rebuilt hparse hbuild hemission
    (fun f hf chain _ => hkeeps chain.scopes f hf) (fun _ _ f hf _ _ => (hfunctions f hf).1) hleaves
    hsize
  refine ⟨s, built, after, parsed, hparse, hspans, hbuild, hparsed, ?_, hretains, hcarries⟩
  rw [hcarries.declared, hplaces]

/-- A container in which the function that stands inside another one uses a variable of it. A third
function starts it as well. -/
def caravan : Array UInt8 :=
  (magic ++ bytesOfWords [11, 11, 49, 50, 51, 52, 53, 54, 0, 3,
    0, 1, 0, 0, 4, 8, 0, 0, 0, 0, 0, 0, 2, 0, 0, 0, 9, 0, 0, 1, 0, 80, 1, 0, 0, 0,
    0, 3, 0, 0, 9, 14, 0, 0, 0, 0, 0, 0, 0, 0, 0, 0,
    14, 6, 1, 8, 17, 317, 80, 80, 9, 9, 6, 1, 8, 17, 9]).toArray

/-- The container that is built from it. -/
def caravanRebuilt : Array UInt8 :=
  (magic ++ bytesOfWords [11, 11, 49, 50, 51, 52, 53, 54, 0, 3,
    0, 1, 0, 0, 4, 8, 0, 0, 0, 0, 0, 0, 2, 0, 0, 9, 14, 0, 0, 1, 0, 80, 1, 0, 0, 0,
    0, 3, 0, 0, 0, 9, 0, 0, 0, 0, 0, 0, 0, 0, 0, 0,
    14, 6, 1, 8, 17, 317, 80, 80, 9, 9, 6, 1, 8, 17, 9]).toArray

lemma caravan_written : (scanned? (declaredIn caravan) caravan 216).bind (fun s =>
      (s.writing? .lenient).map fun written =>
        containerBytes written.1.sectionBytes written.2.writer.bytes.toList) =
    some caravanRebuilt.toList := by decide +kernel

/-- Building puts the function into the third one, where its variable cannot be found. -/
theorem caravan_strays : ∃ s built after, parse .lenient caravan = .ok s ∧
    build .lenient s = .ok built after ∧
    parse .lenient built.bytes = .error (.unknownSymbol .variable (.id 80)) := by
  have hopens : Opens caravan 216 := by decide +kernel
  have hreopens : Opens caravanRebuilt 216 := by decide +kernel
  obtain ⟨s, hscanned, hwritten⟩ := Option.bind_eq_some_iff.mp caravan_written
  obtain ⟨built, after, emission, hbuild, -, hbytes, hfacts⟩ := exists_build_of_writing hwritten
  refine ⟨s, built, after, hopens.parse_of_scanned hscanned, hbuild, ?_⟩
  rw [Array.toList_inj.mp (hbytes.trans hfacts)]
  exact hreopens.parse_error (by decide +kernel)

end Script

end ScriptContainer
