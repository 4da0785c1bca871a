import ScriptContainer.Proofs.Blanks
import ScriptContainer.Proofs.CoveredRegion
import ScriptContainer.Proofs.Reencoding

/-!
# What is found is bound

Whatever reading the code region finds refers to records of the script as it stands before. Code
that belongs to no declared function is kept under ids that follow one another.
-/

namespace ScriptContainer

/-- The instruction was read in functions of the script, and none of its words could be taken for another
one. -/
def Script.HasRead (s : Script) (i : Instruction .bound) : Prop :=
  ∃ (ctx : Context) (n : Instruction .numbered), ctx.IsScoped ∧ ctx.script = s ∧
    n.change ctx.wordBinding = .ok i ∧ n.isClear

namespace Script.HasRead

variable {s t : Script} {i : Instruction .bound}

lemma binds (h : s.HasRead i) : s.Binds i := by
  obtain ⟨ctx, n, hscoped, rfl, hn, -⟩ := h
  exact fun t ht => Script.encodes_iff.mpr (Instruction.exists_change (hscoped.wordBinding_feeds ht) hn)

lemma isClear (h : s.HasRead i) (ht : t.Includes s) {n : Instruction .numbered}
    (hn : i.change t.numbering = .ok n) : n.isClear := by
  obtain ⟨ctx, m, hscoped, rfl, hm, hclear⟩ := h
  have hsame := (Instruction.change_change (hscoped.wordBinding_then ht) hm).trans m.change_same
  obtain rfl := Except.ok.inj (hn.symm.trans hsame)
  exact hclear

end Script.HasRead

lemma Context.IsScoped.hasRead {ctx : Context} (h : ctx.IsScoped) :
    Answers (Read.instruction ctx) fun i => ctx.script.HasRead i :=
  Read.instruction_answers.mono fun _ ⟨n, hn, hclear⟩ => ⟨ctx, n, h, rfl, hn, hclear⟩

/-- The function is made of code that belongs to no other one. -/
structure Function.IsLoose (f : Function) (s : Script) : Prop extends f.OwnsNothing where
  isDeclared : f.isDeclared = false
  code_ne_nil : f.code ≠ []
  code : ∀ i ∈ f.code, s.HasRead i

/-- The id for the code that belongs to no declared function, after `n` others. -/
def Script.gapId (s : Script) (n : Nat) : RecordId := s.nextFunctionId + UInt32.ofNat n

lemma Script.gapId_succ (s : Script) (n : Nat) : s.gapId (n + 1) = s.gapId n + 1 := by
  unfold gapId
  rw [UInt32.ofNat_add, UInt32.add_assoc]
  rfl

/-- Every variable among the values is found by its number. -/
def TableValues.Found (values : TableValues VarRef) (ctx : Context) : Prop :=
  ∀ refs, values = .vars refs → ∀ ref ∈ refs, ctx.findVariable (.id ref.id) = .ok ref

lemma TableValues.Found.of_scopes {values : TableValues VarRef} {ctx ctx' : Context}
    (h : values.Found ctx) (hscript : ctx'.script = ctx.script) (hscopes : ctx'.scopes = ctx.scopes) :
    values.Found ctx' := by
  unfold Found Context.findVariable
  rw [hscript, hscopes]
  exact h

/-- Code and tables that were found refer to records of the script, those of tables as the scope of the
owner says, and `count` functions were made of other code. -/
structure Findings.IsBound (found : Findings) (s : Script) (count : Nat) : Prop where
  bodies : ∀ entry ∈ found.bodies, ∀ i ∈ entry.2, s.HasRead i
  tables : ∀ entry ∈ found.tables, ∃ t, s.table? entry.1 = some t ∧
    Table.Encodes s { t with values := entry.2 }
  looked : ∀ entry ∈ found.tables, entry.2.Found (s.under entry.1.owner.scopes)
  gaps : ∀ gap ∈ found.gaps, gap.2.IsLoose s
  ids : (found.gaps.map fun gap => gap.2.id) = (List.range count).map s.gapId

namespace Findings

lemma isBound_nothing (s : Script) : IsBound ⟨[], [], [], [], []⟩ s 0 :=
  ⟨List.forall_mem_nil _, List.forall_mem_nil _, List.forall_mem_nil _, List.forall_mem_nil _, rfl⟩

namespace IsBound

variable {found : Findings} {s : Script} {count : Nat} (h : found.IsBound s count)
include h

lemma addBody {id : RecordId} {code : Body .bound} (hcode : ∀ i ∈ code, s.HasRead i) :
    IsBound { found with bodies := found.bodies ++ [(id, code)] } s count := by
  refine { h with bodies := List.forall_mem_append.mpr ⟨h.bodies, fun entry hentry => ?_⟩ }
  obtain rfl := List.mem_singleton.mp hentry
  exact hcode

lemma addTable {ref : TableRef} {t : Table} {values : TableValues VarRef} (ht : s.table? ref = some t)
    (hvalues : Table.Encodes s { t with values }) (hlooked : values.Found (s.under ref.owner.scopes)) :
    IsBound { found with tables := found.tables ++ [(ref, values)] } s count := by
  refine { h with
    tables := List.forall_mem_append.mpr ⟨h.tables, fun entry hentry => ?_⟩
    looked := List.forall_mem_append.mpr ⟨h.looked, fun entry hentry => ?_⟩ }
  · obtain rfl := List.mem_singleton.mp hentry
    exact ⟨t, ht, hvalues⟩
  · obtain rfl := List.mem_singleton.mp hentry
    exact hlooked

lemma addGap {placement : Placement} {f : Function} (hf : f.IsLoose s) (hid : f.id = s.gapId count) :
    IsBound { found with gaps := found.gaps ++ [(placement, f)] } s (count + 1) := by
  refine { h with gaps := List.forall_mem_append.mpr ⟨h.gaps, fun gap hgap => ?_⟩, ids := ?_ }
  · obtain rfl := List.mem_singleton.mp hgap
    exact hf
  · rw [List.map_append, h.ids, List.range_succ, List.map_append, List.map_singleton,
      List.map_singleton, hid]

end IsBound

end Findings

lemma Script.table?_of_requireTable {s : Script} {ref : TableRef} {t : Table}
    (h : s.requireTable ref = .ok t) : s.table? ref = some t := by
  unfold requireTable at h
  cases ht : s.table? ref with
  | none =>
    rw [ht] at h
    cases h
  | some u =>
    rw [ht] at h
    exact congrArg some (Except.ok.inj h)

namespace Walking

variable {α β : Type} {inv : Findings → Prop} {good : α → Prop} {run : Walking α}

/-- The run keeps what is known of the findings, and its answers are good. -/
def Keeps (inv : Findings → Prop) (run : Walking α) (good : α → Prop) : Prop :=
  ∀ walk, inv walk.findings → Outcome (run walk) (fun a next => good a ∧ inv next.findings) fun _ => True

namespace Keeps

lemma pure {a : α} (h : good a) : Keeps inv (Pure.pure a) good := fun _ hwalk => ⟨h, hwalk⟩

lemma throw (e : Error) : Keeps inv (throw e : Walking α) good := fun _ _ => trivial

lemma bind {next : α → Walking β} {good' : β → Prop} (h : Keeps inv run good)
    (hnext : ∀ a, good a → Keeps inv (next a) good') : Keeps inv (run >>= next) good' :=
  fun walk hwalk => (h walk hwalk).bind fun a next ha => hnext a ha.1 next ha.2

lemma ofRead {read : Read α} (h : Answers read good) : Keeps inv (ofRead read) good := by
  intro walk hwalk
  unfold Walking.ofRead
  cases hrun : read walk.reader with
  | ok a r => exact ⟨h.of_ok hrun, hwalk⟩
  | error e r => trivial

lemma ofExcept (x : Except Error α) : Keeps inv (ofExcept x) fun a => x = .ok a := by
  cases x with
  | ok a => exact .pure rfl
  | error e => exact .throw e

lemma note {change : Findings → Findings} (h : ∀ found, inv found → inv (change found)) :
    Keeps inv (note change) fun _ => True := fun _ hwalk => ⟨trivial, h _ hwalk⟩

lemma offset : Keeps inv Walking.offset fun _ => True := fun _ hwalk => ⟨trivial, hwalk⟩

lemma isSeen (part : Part) : Keeps inv (isSeen part) fun _ => True := fun _ hwalk => ⟨trivial, hwalk⟩

lemma visit (part : Part) : Keeps inv (visit part) fun _ => True := by
  intro walk hwalk
  refine (visit_outcome part).mono ?_ fun _ h => h
  rintro _ next ⟨-, rfl⟩
  exact ⟨trivial, hwalk⟩

end Keeps

variable {count : Nat}

-- Reading goes down by its steps, and so does the induction. The context grows on the way, but not its
-- script, and `count` stays: inside a function no other code is found.
mutual

lemma body_keeps {ctx : Context} (hscoped : ctx.IsScoped) (stop steps : Nat) :
    Keeps (Findings.IsBound · ctx.script count) (body ctx stop steps)
      fun code => ∀ i ∈ code, ctx.script.HasRead i := by
  match steps with
  | 0 => exact .bind .offset fun _ _ => .throw _
  | steps + 1 =>
    rw [body]
    apply Keeps.offset.bind
    intro here _
    split
    · apply (Keeps.ofRead hscoped.hasRead).bind
      intro i hi
      have hrest : Keeps (Findings.IsBound · ctx.script count)
          (do return i :: (← body ctx stop steps)) fun code => ∀ i ∈ code, ctx.script.HasRead i := by
        apply (body_keeps hscoped stop steps).bind
        intro rest hrest
        exact .pure (List.forall_mem_cons.mpr ⟨hi, hrest⟩)
      cases i.spawned? with
      | none => exact hrest
      | some id => exact (spawned_keeps hscoped id steps).bind fun _ _ => hrest
    · split
      · exact .pure (List.forall_mem_nil _)
      · exact .throw _
termination_by structural steps

lemma spawned_keeps {ctx : Context} (hscoped : ctx.IsScoped) (id : RecordId) (steps : Nat) :
    Keeps (Findings.IsBound · ctx.script count) (spawned ctx id steps) fun _ => True := by
  match steps with
  | 0 => exact .bind .offset fun _ _ => .throw _
  | steps + 1 =>
    rw [spawned]
    apply (Keeps.isSeen _).bind
    intro seen _
    split
    · exact .pure trivial
    · apply (Keeps.ofExcept _).bind
      intro f hf
      have hmem := Registry.mem_of_get? (Script.get?_of_requireFunction hf)
      apply Keeps.offset.bind
      intro here _
      dsimp only
      split
      · exact .throw _
      · apply (Keeps.note fun found hfound => { hfound with }).bind
        exact fun _ _ => function_keeps hscoped hmem steps
termination_by structural steps

lemma function_keeps {ctx : Context} (hscoped : ctx.IsScoped) {f : Function}
    (hf : f ∈ ctx.script.functions.records) (steps : Nat) :
    Keeps (Findings.IsBound · ctx.script count) (function ctx f steps) fun _ => True := by
  match steps with
  | 0 => exact .bind .offset fun _ _ => .throw _
  | steps + 1 =>
    rw [function]
    apply (Keeps.visit _).bind
    intro _ _
    apply Keeps.offset.bind
    intro here _
    dsimp only
    split
    · exact .throw _
    · -- The scopes under which the body is read are functions of the script as well.
      have hpush : (ctx.push f).IsScoped := hscoped.push hf
      apply (body_keeps hpush _ steps).bind
      intro code hcode
      exact .note fun found hfound => hfound.addBody hcode
termination_by structural steps

end

section Parts

variable {ctx : Context} (hscoped : ctx.IsScoped)
include hscoped

lemma elements_answers (t : Table) : Answers (elements ctx t) fun values =>
    Table.Encodes ctx.script { t with values } ∧ values.Found ctx := by
  unfold elements Table.Encodes
  cases t.type with
  | «variable» =>
    refine (Read.times_answers (?_ : Answers _ fun ref => ctx.script.has (.variable ref) = true ∧
      ctx.findVariable (.id ref.id) = .ok ref) _).bind fun refs hrefs => .pure ⟨⟨rfl, ?_⟩, ?_⟩
    · apply Answers.after
      intro w
      cases hfound : ctx.findVariable (.id w) with
      | ok ref =>
        refine .pure ⟨hscoped.findVariable_has hfound, ?_⟩
        rw [Context.id_of_findVariable hfound, hfound]
      | error e => exact .throw e
    · exact fun other hother => TableValues.vars.inj hother ▸ fun ref href => (hrefs ref href).1
    · exact fun other hother => TableValues.vars.inj hother ▸ fun ref href => (hrefs ref href).2
  | int =>
    exact .map (.any _) fun values _ => ⟨⟨rfl, fun refs hrefs => by cases hrefs⟩,
      fun refs hrefs => by cases hrefs⟩
  | float =>
    exact .map (.any _) fun values _ => ⟨⟨rfl, fun refs hrefs => by cases hrefs⟩,
      fun refs hrefs => by cases hrefs⟩
  | byte =>
    exact .after fun values => .after fun _ => .pure ⟨⟨rfl, fun refs hrefs => by cases hrefs⟩,
      fun refs hrefs => by cases hrefs⟩

lemma payload_answers (t : Table) : Answers (payload ctx t) fun values =>
    Table.Encodes ctx.script { t with values } ∧ values.Found ctx := by
  refine .after fun here => .after fun opening => ?_
  split
  · exact .throw _
  · apply (elements_answers hscoped t).bind
    intro values hvalues
    refine .after fun here => .after fun closing => ?_
    split
    · exact .throw _
    · exact .pure hvalues

lemma table_keeps (hscopes : ctx.scopes = []) {ref : TableRef} {t : Table}
    (ht : ctx.script.table? ref = some t) :
    Keeps (Findings.IsBound · ctx.script count) (table ctx ref t) fun _ => True := by
  have hpayload {inner : Context} (hinner : inner.IsScoped) (hscript : inner.script = ctx.script)
      (howner : (ctx.script.under ref.owner.scopes).scopes = inner.scopes) :
      Keeps (Findings.IsBound · ctx.script count) (do
        let values ← ofRead (payload inner t)
        note fun found => { found with tables := found.tables ++ [(ref, values)] }) fun _ => True := by
    apply (Keeps.ofRead (payload_answers hinner t)).bind
    rintro values ⟨hvalues, hlooked⟩
    have hlooked : values.Found (ctx.script.under ref.owner.scopes) :=
      hlooked.of_scopes hscript.symm howner
    rw [hscript] at hvalues
    exact .note fun found hfound => hfound.addTable ht hvalues hlooked
  unfold table
  apply (Keeps.visit _).bind
  intro _ _
  obtain ⟨owner, id⟩ := ref
  cases owner with
  | script => exact hpayload hscoped rfl hscopes.symm
  | function owner =>
    refine Keeps.bind (Keeps.ofExcept (ctx.script.requireFunction owner)) fun f hf => ?_
    have hget := Script.get?_of_requireFunction hf
    have hentered : (ctx.script.under ([] ++ [owner])).scopes = (ctx.push f).scopes := by
      rw [Script.under_append hget, Context.push, Context.push, hscopes]
      rfl
    exact hpayload (hscoped.push (Registry.mem_of_get? hget)) rfl hentered

omit hscoped in
lemma body_ne_nil {stop steps : Nat} {walk : Walk} (h : walk.reader.offset < stop) :
    Outcome (body ctx stop steps walk) (fun code _ => code ≠ []) fun _ => True := by
  cases steps with
  | zero => trivial
  | succ steps =>
    have hanswers : Answers (do
        let instruction ← ofRead (Read.instruction ctx)
        start ctx steps instruction
        let rest ← body ctx stop steps
        return instruction :: rest : Walking (Body .bound)) fun code => code ≠ [] :=
      .after fun i => .after fun _ => .after fun rest => .pure (List.cons_ne_nil i rest)
    rw [body_step h]
    exact hanswers walk

lemma gap_binds {start : Nat} {next : Part} {walk : Walk} (h : walk.findings.IsBound ctx.script count)
    (hlt : walk.reader.offset < start) :
    Outcome (gap ctx (ctx.script.gapId count) start next walk)
      (fun _ last => last.findings.IsBound ctx.script (count + 1)) fun _ => True := by
  unfold gap
  rw [bind_of_ok offset_apply,
    bind_of_ok (rfl : enoughSteps walk = .ok (walk.reader.remaining + 2) walk)]
  cases hrun : body ctx start (walk.reader.remaining + 2) walk with
  | error e last =>
    rw [bind_of_error hrun]
    trivial
  | ok code last =>
    obtain ⟨hcode, hlast⟩ := (body_keeps hscoped start _ walk h).of_ok hrun
    have hne := (body_ne_nil hlt).of_ok hrun
    rw [bind_of_ok hrun]
    exact hlast.addGap ⟨⟨rfl, rfl, rfl⟩, rfl, hne, hcode⟩ rfl

lemma before_binds {start : Nat} {next : Part} {walk : Walk}
    (h : walk.findings.IsBound ctx.script count) :
    Outcome (before ctx (ctx.script.gapId count) start next walk)
      (fun id last => ∃ count', id = ctx.script.gapId count' ∧ last.findings.IsBound ctx.script count')
      fun _ => True := by
  unfold before
  rw [bind_of_ok offset_apply]
  by_cases hlt : walk.reader.offset < start
  · rw [if_pos hlt]
    apply (gap_binds hscoped h hlt).bind
    intro _ last hlast
    exact ⟨count + 1, (Script.gapId_succ _ _).symm, hlast⟩
  · rw [if_neg hlt]
    split
    · trivial
    · exact ⟨count, rfl, h⟩

lemma part_binds (hscopes : ctx.scopes = []) {scheduled : Scheduled} {walk : Walk}
    (h : walk.findings.IsBound ctx.script count) :
    Outcome (part ctx (ctx.script.gapId count) scheduled walk)
      (fun id last => ∃ count', id = ctx.script.gapId count' ∧ last.findings.IsBound ctx.script count')
      fun _ => True := by
  by_cases hseen : scheduled.part ∈ walk.seen.parts
  · rw [part_of_mem hseen]
    exact ⟨count, rfl, h⟩
  obtain ⟨start, stop, next⟩ := scheduled
  cases next with
  | function id =>
    rw [part_function hseen]
    apply (before_binds hscoped h).bind
    rintro _ middle ⟨count', rfl, hmiddle⟩
    apply (ofExcept_outcome _).bind
    rintro f entered ⟨hf, rfl⟩
    have hmem := Registry.mem_of_get? (Script.get?_of_requireFunction hf)
    rw [bind_of_ok (rfl : enoughSteps entered = .ok (entered.reader.remaining + 2) entered)]
    refine Outcome.bind (function_keeps hscoped hmem _ _ hmiddle) ?_
    rintro _ last ⟨-, hlast⟩
    exact ⟨count', rfl, hlast⟩
  | table ref =>
    rw [part_table hseen]
    apply (before_binds hscoped h).bind
    rintro _ middle ⟨count', rfl, hmiddle⟩
    apply (ofExcept_outcome _).bind
    rintro t entered ⟨ht, rfl⟩
    refine Outcome.bind (table_keeps hscoped hscopes (Script.table?_of_requireTable ht) _ hmiddle) ?_
    rintro _ last ⟨-, hlast⟩
    exact ⟨count', rfl, hlast⟩

lemma parts_bind (hscopes : ctx.scopes = []) {schedule : List Scheduled} {walk : Walk}
    (h : walk.findings.IsBound ctx.script count) :
    Outcome (schedule.foldlM (part ctx) (ctx.script.gapId count) walk)
      (fun _ last => ∃ count', last.findings.IsBound ctx.script count') fun _ => True := by
  induction schedule generalizing walk count with
  | nil => exact ⟨count, h⟩
  | cons scheduled schedule ih =>
    rw [List.foldlM_cons]
    apply (part_binds hscoped hscopes h).bind
    rintro _ middle ⟨count', rfl, hmiddle⟩
    exact ih hmiddle

end Parts

end Walking

theorem Read.region_binds (s : Script) :
    Answers (region s) fun found => ∃ count, found.IsBound s count := by
  intro r
  let ctx := (Context.new s).withCodeBase r.offset
  have hscoped : ctx.IsScoped := Context.isScoped_new s
  have hfirst : ctx.script.nextFunctionId = s.gapId 0 := (UInt32.add_zero _).symm
  refine region_outcome ?_
  unfold Walking.region
  rw [hfirst]
  apply (Walking.parts_bind hscoped rfl (Findings.isBound_nothing s)).bind
  rintro _ walk ⟨count, hwalk⟩
  have htrailing : Walking.Keeps (Findings.IsBound · s count)
      (Walking.ofRead (do Read.wordsUntil (← Read.length))) fun _ => True := .ofRead (.any _)
  apply (htrailing walk hwalk).bind
  rintro words last ⟨-, hlast⟩
  exact ⟨count, { hlast with }⟩

end ScriptContainer
