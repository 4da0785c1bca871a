import ScriptContainer.Proofs.Reencoding

/-!
# Lookups of one kind and of any kind

The lookup of any record finds the first label, variable or table in the functions that have been
entered, and otherwise the first record of the script. Lookups of one kind skip the other kinds on the
same path. So they find the same record wherever it is of their kind, and find nothing where there is
no record at all.
-/

namespace ScriptContainer

lemma Registry.lookup_eq_none_iff {α : Type} [Named α] {r : Registry α} {key : Key} :
    r.lookup key = none ↔ ∀ x ∈ r.records, key.matchesRecord (Keyed.id x) (Named.name x) = false := by
  cases key with
  | id number =>
    rw [lookup, get?, List.find?_eq_none]
    refine forall₂_congr fun x _ => ?_
    rw [Key.matchesRecord, Bool.not_eq_true, Bool.beq_comm]
  | name text =>
    rw [lookup, List.find?_eq_none]
    exact forall₂_congr fun x _ => Eq.to_iff (Bool.not_eq_true _)

section Scopes

variable {α : Type} {scopes : List Function} {key : Key}

lemma firstIn_cons_of_none {find : Function → Option α} {f : Function} (h : find f = none) :
    firstIn (f :: scopes) find = firstIn scopes find :=
  List.findSome?_cons_of_isNone (by rw [h]; rfl)

/-- The search for records of one kind stops where the search for records of any kind comes upon one
of this kind. -/
lemma firstIn_of_findSymbol {find : Function → Option α} {kind : α → Symbol} {x : α}
    (hnone : ∀ f : Function, f.findSymbol key = none → find f = none)
    (hsome : ∀ f : Function, f.findSymbol key = some (kind x) → find f = some x)
    (h : firstIn scopes (·.findSymbol key) = some (kind x)) : firstIn scopes find = some x := by
  obtain ⟨before, f, after, rfl, hf, hbefore⟩ := List.findSome?_eq_some_iff.mp h
  exact List.findSome?_eq_some_iff.mpr
    ⟨before, f, after, rfl, hsome f hf, fun g hg => hnone g (hbefore g hg)⟩

lemma firstIn_eq_none {find : Function → Option α}
    (hnone : ∀ f : Function, f.findSymbol key = none → find f = none)
    (h : firstIn scopes (·.findSymbol key) = none) : firstIn scopes find = none := by
  rw [firstIn, List.findSome?_eq_none_iff] at h ⊢
  exact fun f hf => hnone f (h f hf)

end Scopes

namespace Function

variable {f : Function} {key : Key}

lemma findSymbol_eq_none_iff : f.findSymbol key = none ↔
    f.findLabel key = none ∧ f.findVariable key = none ∧ f.findTable key = none := by
  simp only [findSymbol, Option.or_eq_none_iff, Option.map_eq_none_iff]

lemma findLabel_eq_none (f : Function) (h : f.findSymbol key = none) : f.findLabel key = none :=
  (findSymbol_eq_none_iff.mp h).1

lemma findVariable_eq_none (f : Function) (h : f.findSymbol key = none) : f.findVariable key = none :=
  (findSymbol_eq_none_iff.mp h).2.1

lemma findTable_eq_none (f : Function) (h : f.findSymbol key = none) : f.findTable key = none :=
  (findSymbol_eq_none_iff.mp h).2.2

lemma findLabel_of_findSymbol {ref : LabelRef} (h : f.findSymbol key = some (.label ref)) :
    f.findLabel key = some ref := by
  simp only [findSymbol, Option.or_eq_some_iff, Option.map_eq_some_iff] at h
  obtain ⟨_, href, ⟨⟩⟩ | ⟨-, ⟨_, -, ⟨⟩⟩ | ⟨-, _, -, ⟨⟩⟩⟩ := h
  exact href

lemma findVariable_of_findSymbol {ref : VarRef} (h : f.findSymbol key = some (.variable ref)) :
    f.findVariable key = some ref := by
  simp only [findSymbol, Option.or_eq_some_iff, Option.map_eq_some_iff] at h
  obtain ⟨_, -, ⟨⟩⟩ | ⟨-, ⟨_, href, ⟨⟩⟩ | ⟨-, _, -, ⟨⟩⟩⟩ := h
  exact href

lemma findTable_of_findSymbol {ref : TableRef} (h : f.findSymbol key = some (.table ref)) :
    f.findTable key = some ref := by
  simp only [findSymbol, Option.or_eq_some_iff, Option.map_eq_some_iff] at h
  obtain ⟨_, -, ⟨⟩⟩ | ⟨-, ⟨_, -, ⟨⟩⟩ | ⟨-, _, href, ⟨⟩⟩⟩ := h
  exact href

/-- No label, variable or table of the function answers to the key. -/
structure Lacks (f : Function) (key : Key) : Prop where
  labels : ∀ l ∈ f.labels.records, key.matchesRecord l.id l.name = false
  vars : ∀ v ∈ f.vars.records, key.matchesRecord v.id v.name = false
  tables : ∀ t ∈ f.tables.records, key.matchesRecord t.id t.name = false

lemma Lacks.findSymbol (h : f.Lacks key) : f.findSymbol key = none := by
  rw [findSymbol_eq_none_iff, findLabel, findVariable, findTable]
  rw [Registry.lookup_eq_none_iff.mpr h.labels, Registry.lookup_eq_none_iff.mpr h.vars,
    Registry.lookup_eq_none_iff.mpr h.tables]
  exact ⟨rfl, rfl, rfl⟩

end Function

namespace Script

variable {s : Script} {key : Key}

lemma findSymbol_eq_none_iff : s.findSymbol key = none ↔
    s.findTable key = none ∧ s.findImport key = none ∧ s.findFunction key = none ∧
      s.findVariable key = none := by
  simp only [findSymbol, Option.or_eq_none_iff, Option.map_eq_none_iff]

end Script

namespace Context

variable {ctx : Context} {key : Key}

/-- The lookups of the kind of a symbol, callees included, find this symbol. -/
def Agrees (ctx : Context) (key : Key) : Symbol → Prop
  | .label ref => ctx.findLabel key = .ok ref
  | .variable ref => ctx.findVariable key = .ok ref
  | .table ref => ctx.findTable key = .ok ref
  | .imported id => ctx.findImport key = .ok id ∧ ctx.findCallee key = .ok (.imported id)
  | .function id => ctx.findFunction key = .ok id ∧ ctx.findCallee key = .ok (.function id)

/-- No lookup of one kind finds anything. -/
structure FindsNothing (ctx : Context) (key : Key) : Prop where
  findVariable : ctx.findVariable key = .error (.unknownSymbol .variable key)
  findLabel : ctx.findLabel key = .error (.unknownSymbol .label key)
  findTable : ctx.findTable key = .error (.unknownSymbol .table key)
  findCallee : ctx.findCallee key = .error (.unknownSymbol .callee key)
  findImport : ctx.findImport key = .error (.unknownSymbol .imported key)
  findFunction : ctx.findFunction key = .error (.unknownSymbol .function key)

/-- All lookups have the same results in the two contexts. -/
structure SameLookups (ctx other : Context) (key : Key) : Prop where
  resolve : ctx.resolve key = other.resolve key
  findVariable : ctx.findVariable key = other.findVariable key
  findLabel : ctx.findLabel key = other.findLabel key
  findTable : ctx.findTable key = other.findTable key
  findCallee : ctx.findCallee key = other.findCallee key
  findImport : ctx.findImport key = other.findImport key
  findFunction : ctx.findFunction key = other.findFunction key

lemma orUnknown_eq_error_iff {α : Type} {found : Option α} {kind : Sought} :
    (∃ e, orUnknown found kind key = .error e) ↔ found = none := by
  unfold orUnknown
  cases found <;> simp

lemma agrees_of_firstIn {symbol : Symbol}
    (h : firstIn ctx.scopes (·.findSymbol key) = some symbol) : ctx.Agrees key symbol := by
  cases symbol with
  | label ref =>
    have hfound : firstIn ctx.scopes (·.findLabel key) = some ref :=
      firstIn_of_findSymbol Function.findLabel_eq_none (fun _ => Function.findLabel_of_findSymbol) h
    exact orUnknown_eq_ok_iff.mpr hfound
  | «variable» ref =>
    have hfound : firstIn ctx.scopes (·.findVariable key) = some ref :=
      firstIn_of_findSymbol Function.findVariable_eq_none
        (fun _ => Function.findVariable_of_findSymbol) h
    exact orUnknown_eq_ok_iff.mpr (by rw [hfound, Option.some_or])
  | table ref =>
    have hfound : firstIn ctx.scopes (·.findTable key) = some ref :=
      firstIn_of_findSymbol Function.findTable_eq_none (fun _ => Function.findTable_of_findSymbol) h
    exact orUnknown_eq_ok_iff.mpr (by rw [hfound, Option.some_or])
  | imported id | function id =>
    obtain ⟨f, -, hf⟩ := List.exists_of_findSome?_eq_some h
    simp [Function.findSymbol] at hf

lemma agrees_of_findSymbol {symbol : Symbol} (hscopes : firstIn ctx.scopes (·.findSymbol key) = none)
    (h : ctx.script.findSymbol key = some symbol) : ctx.Agrees key symbol := by
  simp only [Script.findSymbol, Option.or_eq_some_iff, Option.map_eq_some_iff] at h
  obtain ⟨ref, href, rfl⟩ | ⟨-, ⟨id, hid, rfl⟩ | ⟨himport, ⟨id, hid, rfl⟩ | ⟨-, ref, href, rfl⟩⟩⟩ := h
  · have htables := firstIn_eq_none Function.findTable_eq_none hscopes
    exact orUnknown_eq_ok_iff.mpr (by rw [htables, Option.none_or, href])
  · exact ⟨orUnknown_eq_ok_iff.mpr hid,
      orUnknown_eq_ok_iff.mpr (by rw [hid, Option.map_some, Option.some_or])⟩
  · have hcallee : ctx.script.findImport key = none := Option.map_eq_none_iff.mp himport
    exact ⟨orUnknown_eq_ok_iff.mpr hid,
      orUnknown_eq_ok_iff.mpr (by rw [hcallee, hid, Option.map_none, Option.none_or, Option.map_some])⟩
  · have hvars := firstIn_eq_none Function.findVariable_eq_none hscopes
    exact orUnknown_eq_ok_iff.mpr (by rw [hvars, Option.none_or, href])

lemma agrees_of_resolve {symbol : Symbol} (h : ctx.resolve key = .ok symbol) :
    ctx.Agrees key symbol := by
  rcases Option.or_eq_some_iff.mp (orUnknown_eq_ok_iff.mp h) with hfirst | ⟨hscopes, hscript⟩
  · exact agrees_of_firstIn hfirst
  · exact agrees_of_findSymbol hscopes hscript

lemma findsNothing_of_resolve (h : ∃ e, ctx.resolve key = .error e) : ctx.FindsNothing key := by
  obtain ⟨hscopes, hscript⟩ := Option.or_eq_none_iff.mp (orUnknown_eq_error_iff.mp h)
  obtain ⟨htable, himport, hfunction, hvariable⟩ := Script.findSymbol_eq_none_iff.mp hscript
  have hlabels := firstIn_eq_none Function.findLabel_eq_none hscopes
  have hvars := firstIn_eq_none Function.findVariable_eq_none hscopes
  have htables := firstIn_eq_none Function.findTable_eq_none hscopes
  refine ⟨?_, ?_, ?_, ?_, ?_, ?_⟩
  · rw [findVariable, hvars, hvariable]
    rfl
  · rw [findLabel, hlabels]
    rfl
  · rw [findTable, htables, htable]
    rfl
  · rw [findCallee, himport, hfunction]
    rfl
  · rw [findImport, himport]
    rfl
  · rw [findFunction, hfunction]
    rfl

lemma sameLookups_push {f : Function} (h : f.Lacks key) : (ctx.push f).SameLookups ctx key := by
  obtain ⟨hlabel, hvariable, htable⟩ := f.findSymbol_eq_none_iff.mp h.findSymbol
  have hpass {α : Type} {find : Function → Option α} (hfind : find f = none) :
      firstIn (ctx.push f).scopes find = firstIn ctx.scopes find := firstIn_cons_of_none hfind
  refine ⟨?_, ?_, ?_, ?_, rfl, rfl, rfl⟩
  · rw [resolve, resolve, hpass h.findSymbol]
    rfl
  · rw [Context.findVariable, Context.findVariable, hpass hvariable]
    rfl
  · rw [Context.findLabel, Context.findLabel, hpass hlabel]
  · rw [Context.findTable, Context.findTable, hpass htable]
    rfl

/-- The functions of a script entered one after the other. -/
def entered (s : Script) (chain : List Function) : Context := chain.foldl push (new s)

lemma isScoped_entered {s : Script} {chain : List Function}
    (h : ∀ f ∈ chain, f ∈ s.functions.records) :
    (entered s chain).IsScoped ∧ (entered s chain).script = s := by
  have hall (ctx : Context) (hscoped : ctx.IsScoped) (hscript : ctx.script = s) :
      (chain.foldl push ctx).IsScoped ∧ (chain.foldl push ctx).script = s := by
    induction chain generalizing ctx with
    | nil => exact ⟨hscoped, hscript⟩
    | cons f chain ih =>
      rw [List.forall_mem_cons] at h
      exact ih h.2 (ctx.push f) (hscoped.push (hscript ▸ h.1)) hscript
  exact hall (new s) (isScoped_new s) rfl

/-- In any functions of a script the lookup of any record and those of its kind find the same record,
which is numbered by the id that was looked for, or all of them find nothing; and entering a function
without a record for the key changes no lookup. -/
theorem lookups_agree {s : Script} {chain : List Function}
    (h : ∀ f ∈ chain, f ∈ s.functions.records) (key : Key) :
    (∀ symbol, (entered s chain).resolve key = .ok symbol →
      (entered s chain).Agrees key symbol ∧ ∀ id, key = .id id → s.check symbol = .ok id) ∧
    ((∃ e, (entered s chain).resolve key = .error e) → (entered s chain).FindsNothing key) ∧
    ∀ f : Function, f.Lacks key → ((entered s chain).push f).SameLookups (entered s chain) key := by
  refine ⟨fun symbol hsymbol => ⟨agrees_of_resolve hsymbol, ?_⟩, findsNothing_of_resolve,
    fun f hf => sameLookups_push hf⟩
  rintro id rfl
  obtain ⟨hscoped, hscript⟩ := isScoped_entered h
  have hhas := hscoped.resolve_has hsymbol
  rw [hscript] at hhas
  exact Script.check_of_has hhas (id_of_resolve hsymbol)

end Context

/-- A function with a variable and a table of the same id. -/
def avenue : Function :=
  { Function.new 7 with
    vars := .ofList [⟨5, some "gate", .owned, .int, 0, .int 0⟩]
    tables := .ofList [⟨5, none, .int, 0, 0, .ints []⟩] }

/-- A function with a label that hides the records of the same id around it. -/
def lane : Function := { Function.new 8 with labels := .ofList [⟨5, some "corner", 0⟩] }

/-- A script in which one id stands for records of every kind. -/
def crossroads : Script :=
  { Script.new with
    functions := .ofList [avenue, lane, .new 5], imports := .ofList [⟨5, some "gate", .zero⟩],
    tables := .ofList [⟨5, none, .int, 0, 0, .ints []⟩] }

open Context in
theorem crossroads_lookups : (∀ f ∈ [avenue, lane], f ∈ crossroads.functions.records) ∧
    (entered crossroads [avenue, lane]).Agrees (.id 5) (.label ⟨8, 5⟩) ∧
    crossroads.check (.label ⟨8, 5⟩) = .ok 5 ∧
    (entered crossroads [avenue, lane]).Agrees (.name "gate") (.variable ⟨.function 7, 5⟩) ∧
    (entered crossroads [avenue, lane]).FindsNothing (.name "tunnel") ∧
    ((entered crossroads [avenue, lane]).push lane).SameLookups (entered crossroads [avenue, lane])
      (.name "gate") := by
  have h : ∀ f ∈ [avenue, lane], f ∈ crossroads.functions.records :=
    List.forall_mem_cons.mpr ⟨List.mem_cons_self,
      List.forall_mem_singleton.mpr (List.mem_cons_of_mem _ List.mem_cons_self)⟩
  obtain ⟨hfound, -, -⟩ := lookups_agree h (.id 5)
  obtain ⟨hnamed, -, hpush⟩ := lookups_agree h (.name "gate")
  obtain ⟨-, hnothing, -⟩ := lookups_agree h (.name "tunnel")
  obtain ⟨hlabel, hcheck⟩ := hfound (.label ⟨8, 5⟩) rfl
  obtain ⟨hvariable, -⟩ := hnamed (.variable ⟨.function 7, 5⟩) rfl
  have hlane : lane.Lacks (.name "gate") := ⟨by decide, by decide, by decide⟩
  exact ⟨h, hlabel, hcheck 5 rfl, hvariable, hnothing ⟨_, rfl⟩, hpush lane hlane⟩

end ScriptContainer
