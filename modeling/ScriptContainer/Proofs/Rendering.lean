import ScriptContainer.Json.Render
import ScriptContainer.Proofs.Escapes
import ScriptContainer.Proofs.Numerals

/-!
# Values that are read back

A value whose strings are escaped texts and whose numerals are those of the grammar is found again in the
text that it is written as, on one line or over several ones.
-/

namespace ScriptContainer.Json

open Number Numeral

/-- Values whose strings and keys hold texts, and whose numerals satisfy `P`. -/
inductive Made (P : Numeral → Prop) : Json → Prop
  | null : Made P .null
  | bool (value : Bool) : Made P (.bool value)
  | number {numeral : Numeral} (h : P numeral) : Made P (.number numeral)
  | string (text : List Char) : Made P (.string (escape text))
  | array {items : List Json} (h : ∀ item ∈ items, Made P item) : Made P (.array items)
  | object {members : List Member} (keys : ∀ m ∈ members, ∃ text, m.key = escape text)
    (h : ∀ m ∈ members, Made P m.value) : Made P (.object members)

mutual

def tokens : Json → List Token
  | null => [.null]
  | bool true => [.true]
  | bool false => [.false]
  | number numeral => [.number numeral]
  | string body => [.string body]
  | array [] => [.openArray, .closeArray]
  | array (item :: items) => .openArray :: (tokens item ++ itemTokens items)
  | object [] => [.openObject, .closeObject]
  | object (member :: members) => .openObject :: (member.tokens ++ memberTokens members)

def Member.tokens : Member → List Token
  | ⟨key, value⟩ => .string key :: .colon :: Json.tokens value

/-- The tokens of the items after the first one, and the closing bracket. -/
def itemTokens : List Json → List Token
  | [] => [.closeArray]
  | item :: items => .comma :: (tokens item ++ itemTokens items)

/-- The tokens of the members after the first one, and the closing brace. -/
def memberTokens : List Member → List Token
  | [] => [.closeObject]
  | member :: members => .comma :: (member.tokens ++ memberTokens members)

end

/-- Scanning the text finds the tokens and goes on with what follows, which does not go on with a
numeral. -/
def Scans (text : List Char) (tokens : List Token) : Prop :=
  ∀ (rest : List Char) (found : List Token) (steps : Nat), Ends rest → (text ++ rest).length < steps →
    ∃ left, rest.length < left ∧
      scanTokens found steps (text ++ rest) = scanTokens (tokens.reverse ++ found) left rest

/-- A numeral before the text ends where the text begins. -/
def Closes (text : List Char) : Prop := ∀ rest, Ends rest → Ends (text ++ rest)

section Scanning

variable {text more line : List Char} {token : Token} {found others : List Token} {c : Char}

lemma not_continues_of_isBlank (h : isBlank c = true) : ¬ Continues c := by
  simp only [isBlank, Bool.or_eq_true, decide_eq_true_eq] at h
  unfold Continues
  rcases h with ((rfl | rfl) | rfl) | rfl <;> decide

lemma closes_cons (h : ¬ Continues c) (text : List Char) : Closes (c :: text) := by
  rintro rest - _ ⟨⟩
  exact h

lemma closes_append (hline : ∀ c ∈ line, isBlank c = true) (h : Closes text) : Closes (line ++ text) := by
  cases line with
  | nil => exact h
  | cons c line => exact closes_cons (not_continues_of_isBlank (hline c List.mem_cons_self)) _

lemma isBlank_newline (level : Nat) : ∀ c ∈ newline level, isBlank c = true := by
  intro c hc
  rcases List.mem_cons.mp hc with rfl | hc
  · rfl
  · obtain ⟨-, rfl⟩ := List.mem_replicate.mp hc
    rfl

lemma scanToken_of_numeral (h : c = '-' ∨ isDigit c = true) : scanToken (c :: text) =
    (scanNumeral (c :: text)).map fun (numeral, rest) => (.number numeral, rest) := by
  unfold scanToken
  split
  case h_11 => rfl
  all_goals
    rename_i heq
    obtain ⟨rfl, -⟩ := List.cons.inj heq
    exact absurd h (by decide)

namespace Scans

lemma nil : Scans [] [] := fun _ _ steps _ hsteps => ⟨steps, hsteps, rfl⟩

lemma append (h : Scans text found) (hmore : Scans more others) (hcloses : Closes more) :
    Scans (text ++ more) (found ++ others) := by
  intro rest before steps hends hsteps
  rw [List.append_assoc] at hsteps ⊢
  obtain ⟨left, hleft, hscan⟩ := h (more ++ rest) before steps (hcloses rest hends) hsteps
  obtain ⟨left', hleft', hscan'⟩ := hmore rest (found.reverse ++ before) left hends hleft
  refine ⟨left', hleft', ?_⟩
  rw [hscan, hscan', List.reverse_append, List.append_assoc]

lemma cons (text : List Char) (hblank : isBlank c = false)
    (htoken : ∀ rest, Ends rest → scanToken (c :: (text ++ (more ++ rest))) = some (token, more ++ rest))
    (h : Scans more others) : Scans (c :: (text ++ more)) (token :: others) := by
  intro rest before steps hends hsteps
  cases steps with
  | zero => cases hsteps
  | succ steps =>
    have hlength : (more ++ rest).length < steps := by
      rw [List.cons_append, List.length_cons, List.append_assoc, List.length_append] at hsteps
      omega
    obtain ⟨left, hleft, hscan⟩ := h rest (token :: before) steps hends hlength
    refine ⟨left, hleft, ?_⟩
    have hfirst := htoken rest hends
    rw [List.cons_append, List.append_assoc, scanTokens, if_neg (by rw [hblank]; exact Bool.false_ne_true),
      hfirst, List.reverse_cons, List.append_assoc]
    exact hscan

lemma mark (hblank : isBlank c = false) (htoken : ∀ rest, scanToken (c :: rest) = some (token, rest))
    (h : Scans more others) : Scans (c :: more) (token :: others) :=
  cons [] hblank (fun _ _ => htoken _) h

lemma blanks_append (hline : ∀ c ∈ line, isBlank c = true) (h : Scans text found) :
    Scans (line ++ text) found := by
  induction line with
  | nil => exact h
  | cons c line ih =>
    obtain ⟨hc, hline⟩ := List.forall_mem_cons.mp hline
    intro rest before steps hends hsteps
    cases steps with
    | zero => cases hsteps
    | succ steps =>
      obtain ⟨left, hleft, hscan⟩ := ih hline rest before steps hends (Nat.lt_of_succ_lt_succ hsteps)
      refine ⟨left, hleft, ?_⟩
      rw [← hscan]
      exact if_pos hc

lemma quoted_append (text : List Char) (h : Scans more others) :
    Scans (quoted (escape text) ++ more) (.string (escape text) :: others) := by
  have htext : quoted (escape text) ++ more = '\x22' :: ((escape text ++ ['\x22']) ++ more) := by
    simp [quoted]
  rw [htext]
  refine cons _ rfl (fun rest _ => ?_) h
  rw [List.append_assoc, List.singleton_append]
  change Option.map _ (scanBody [] _) = _
  rw [scanBody_escape]
  rfl

lemma numeral {n : Numeral} (h : n.IsWritten) : Scans n.text [.number n] := by
  have hfirst : ∃ c text, n.text = c :: text ∧ (c = '-' ∨ isDigit c = true) := by
    obtain ⟨first, rest, hwhole⟩ := List.exists_cons_of_ne_nil h.whole.ne_nil
    have hdigit := h.whole.isDigit first (hwhole ▸ List.mem_cons_self)
    unfold Numeral.text
    rw [hwhole]
    cases n.negative with
    | true => exact ⟨'-', _, rfl, .inl rfl⟩
    | false => exact ⟨first, _, rfl, .inr hdigit⟩
  obtain ⟨c, text, htext, hc⟩ := hfirst
  have hblank : isBlank c = false := by
    rcases hc with rfl | hc
    · rfl
    · exact Bool.eq_false_iff.mpr fun hblank => not_continues_of_isBlank hblank (.inl hc)
  rw [htext, ← List.append_nil text]
  refine cons _ hblank (fun rest hends => ?_) nil
  rw [List.nil_append, scanToken_of_numeral hc, ← List.cons_append, ← htext, scanNumeral_text h hends]
  rfl

/-- A token of one character. -/
structure Opening (c : Char) (token : Token) : Prop where
  notBlank : isBlank c = false
  scan : ∀ rest, scanToken (c :: rest) = some (token, rest)

/-- A token of one character that ends a numeral before it. -/
structure Closing (c : Char) (token : Token) : Prop extends Opening c token where
  ends : ¬ Continues c

lemma elements {α : Type} {last : List Char} {write : α → List Char} {tokens : α → List Token}
    (hline : ∀ c ∈ line, isBlank c = true) (hlast : ∀ c ∈ last, isBlank c = true)
    (hclosing : Closing c token) {xs : List α} (h : ∀ x ∈ xs, Scans (write x) (tokens x)) :
    Scans ((xs.flatMap fun x => ',' :: (line ++ write x)) ++ (last ++ [c]))
      ((xs.flatMap fun x => .comma :: tokens x) ++ [token]) ∧
    Closes ((xs.flatMap fun x => ',' :: (line ++ write x)) ++ (last ++ [c])) := by
  induction xs with
  | nil =>
    rw [List.flatMap_nil, List.flatMap_nil, List.nil_append, List.nil_append]
    refine ⟨blanks_append hlast (mark hclosing.notBlank hclosing.scan nil), ?_⟩
    exact closes_append hlast (closes_cons hclosing.ends [])
  | cons x xs ih =>
    obtain ⟨hx, hxs⟩ := List.forall_mem_cons.mp h
    obtain ⟨hscan, hcloses⟩ := ih hxs
    have hfirst := blanks_append hline (hx.append hscan hcloses)
    simp only [List.flatMap_cons, List.cons_append, List.append_assoc]
    exact ⟨mark rfl (fun _ => rfl) hfirst, closes_cons (by decide) _⟩

lemma list {α : Type} {last : List Char} {write : α → List Char} {tokens : α → List Token}
    {o : Char} {opening : Token} (hopening : Opening o opening)
    (hline : ∀ c ∈ line, isBlank c = true) (hlast : ∀ c ∈ last, isBlank c = true)
    (hclosing : Closing c token) {x : α} {xs : List α} (h : ∀ y ∈ x :: xs, Scans (write y) (tokens y)) :
    Scans (o :: (line ++ write x ++ ((xs.flatMap fun y => ',' :: (line ++ write y)) ++ (last ++ [c]))))
      (opening :: (tokens x ++ ((xs.flatMap fun y => .comma :: tokens y) ++ [token]))) := by
  obtain ⟨hx, hxs⟩ := List.forall_mem_cons.mp h
  obtain ⟨hscan, hcloses⟩ := elements hline hlast hclosing hxs
  rw [List.append_assoc]
  exact mark hopening.notBlank hopening.scan (blanks_append hline (hx.append hscan hcloses))

lemma opening_array : Opening '[' .openArray := ⟨rfl, fun _ => rfl⟩

lemma opening_object : Opening '\x7b' .openObject := ⟨rfl, fun _ => rfl⟩

lemma closing_array : Closing ']' .closeArray := ⟨⟨rfl, fun _ => rfl⟩, by decide⟩

lemma closing_object : Closing '\x7d' .closeObject := ⟨⟨rfl, fun _ => rfl⟩, by decide⟩

end Scans

end Scanning

section Forms

lemma compactItems_eq (items : List Json) :
    compactItems items = (items.flatMap fun item => ',' :: ([] ++ compact item)) ++ ([] ++ [']']) := by
  induction items with
  | nil => rfl
  | cons item items ih => simp [compactItems, ih]

lemma compactMembers_eq (members : List Member) : compactMembers members =
    (members.flatMap fun m => ',' :: ([] ++ m.compact)) ++ ([] ++ ['\x7d']) := by
  induction members with
  | nil => rfl
  | cons m members ih => simp [compactMembers, ih]

lemma prettyItems_eq (level : Nat) (items : List Json) : prettyItems level items =
    (items.flatMap fun item => ',' :: (newline (level + 1) ++ pretty (level + 1) item)) ++
      (newline level ++ [']']) := by
  induction items with
  | nil => rfl
  | cons item items ih => simp [prettyItems, ih]

lemma prettyMembers_eq (level : Nat) (members : List Member) : prettyMembers level members =
    (members.flatMap fun m => ',' :: (newline (level + 1) ++ m.pretty (level + 1))) ++
      (newline level ++ ['\x7d']) := by
  induction members with
  | nil => rfl
  | cons m members ih => simp [prettyMembers, ih]

lemma itemTokens_eq (items : List Json) :
    itemTokens items = (items.flatMap fun item => .comma :: item.tokens) ++ [.closeArray] := by
  induction items with
  | nil => rfl
  | cons item items ih => simp [itemTokens, ih]

lemma memberTokens_eq (members : List Member) :
    memberTokens members = (members.flatMap fun m => .comma :: m.tokens) ++ [.closeObject] := by
  induction members with
  | nil => rfl
  | cons m members ih => simp [memberTokens, ih]

end Forms

lemma scans_null : Scans Token.null.text [.null] :=
  Scans.cons ['u', 'l', 'l'] rfl (fun _ _ => rfl) .nil

lemma scans_bool (value : Bool) : Scans (bool value).compact (bool value).tokens := by
  cases value with
  | true => exact .cons ['r', 'u', 'e'] rfl (fun _ _ => rfl) .nil
  | false => exact .cons ['a', 'l', 's', 'e'] rfl (fun _ _ => rfl) .nil

lemma scans_string (text : List Char) : Scans (quoted (escape text)) [.string (escape text)] := by
  simpa using Scans.nil.quoted_append text

lemma scans_compact {v : Json} (h : v.Made IsWritten) : Scans v.compact v.tokens := by
  induction h with
  | null => exact scans_null
  | bool value => exact scans_bool value
  | number h => exact .numeral h
  | string text => exact scans_string text
  | @array items _ ih =>
    cases items with
    | nil => exact .mark rfl (fun _ => rfl) (.mark rfl (fun _ => rfl) .nil)
    | cons item items =>
      rw [compact, tokens, compactItems_eq, itemTokens_eq]
      exact .list Scans.opening_array (List.forall_mem_nil _) (List.forall_mem_nil _)
        Scans.closing_array ih
  | @object members keys _ ih =>
    have hmembers : ∀ m ∈ members, Scans m.compact m.tokens := by
      intro m hm
      obtain ⟨key, hkey⟩ := keys m hm
      obtain ⟨_, value⟩ := m
      obtain rfl : _ = escape key := hkey
      exact .quoted_append key (.mark rfl (fun _ => rfl) (ih _ hm))
    cases members with
    | nil => exact .mark rfl (fun _ => rfl) (.mark rfl (fun _ => rfl) .nil)
    | cons m members =>
      rw [compact, tokens, compactMembers_eq, memberTokens_eq]
      exact .list Scans.opening_object (List.forall_mem_nil _) (List.forall_mem_nil _)
        Scans.closing_object hmembers

lemma scans_pretty {v : Json} (h : v.Made IsWritten) (level : Nat) :
    Scans (v.pretty level) v.tokens := by
  induction h generalizing level with
  | null => exact scans_null
  | bool value =>
    cases value with
    | true => exact scans_bool true
    | false => exact scans_bool false
  | number h => exact .numeral h
  | string text => exact scans_string text
  | @array items _ ih =>
    cases items with
    | nil => exact .mark rfl (fun _ => rfl) (.mark rfl (fun _ => rfl) .nil)
    | cons item items =>
      rw [pretty, tokens, prettyItems_eq, itemTokens_eq]
      exact .list Scans.opening_array (isBlank_newline _) (isBlank_newline _) Scans.closing_array
        fun item hitem => ih item hitem (level + 1)
  | @object members keys _ ih =>
    have hmembers : ∀ m ∈ members, Scans (m.pretty (level + 1)) m.tokens := by
      intro m hm
      obtain ⟨key, hkey⟩ := keys m hm
      obtain ⟨_, value⟩ := m
      obtain rfl : _ = escape key := hkey
      refine .quoted_append key (.mark rfl (fun _ => rfl) ?_)
      exact .blanks_append (fun c hc => List.mem_singleton.mp hc ▸ rfl) (ih _ hm (level + 1))
    cases members with
    | nil => exact .mark rfl (fun _ => rfl) (.mark rfl (fun _ => rfl) .nil)
    | cons m members =>
      rw [pretty, tokens, prettyMembers_eq, memberTokens_eq]
      exact .list Scans.opening_object (isBlank_newline _) (isBlank_newline _) Scans.closing_object
        hmembers

lemma tokens?_render {v : Json} (h : v.Made IsWritten) (indented : Bool) :
    tokens? (v.render indented).toList = some v.tokens := by
  have hscans : Scans (v.render indented).toList v.tokens := by
    rw [render, String.toList_ofList]
    cases indented with
    | true => exact scans_pretty h 0
    | false => exact scans_compact h
  obtain ⟨left, hleft, hscan⟩ := hscans [] [] _ (fun _ h => nomatch h) (Nat.lt_succ_self _)
  rw [List.append_nil, List.append_nil] at hscan
  obtain ⟨left, rfl⟩ := Nat.exists_eq_succ_of_ne_zero (Nat.ne_of_gt hleft)
  rw [tokens?, hscan, scanTokens, List.reverse_reverse]

section Reading

/-- A value may begin. -/
def Progress.Expects (p : Progress) (stack : List Frame) : Prop :=
  ∀ token, token ≠ .closeArray → p.step token = Progress.start stack token

lemma expects_value (stack : List Frame) : Progress.Expects ⟨.value, stack⟩ stack := fun _ _ => rfl

lemma expects_valueOrClose (stack : List Frame) : Progress.Expects ⟨.valueOrClose, stack⟩ stack := by
  intro token h
  cases token <;> first | rfl | exact absurd rfl h

/-- Where a value may begin, its tokens make it up. -/
def ReadsAs (tokens : List Token) (v : Json) : Prop :=
  ∀ (p : Progress) (stack : List Frame), p.Expects stack →
    tokens.foldlM Progress.step p = some (Progress.finish stack v)

lemma ReadsAs.of_token {token : Token} {v : Json} (hne : token ≠ .closeArray)
    (h : ∀ stack, Progress.start stack token = some (Progress.finish stack v)) :
    ReadsAs [token] v := by
  intro p stack hp
  rw [List.foldlM_cons, hp token hne, h]
  rfl

lemma foldlM_itemTokens {items : List Json} (h : ∀ item ∈ items, ReadsAs item.tokens item)
    (done : List Json) (stack : List Frame) :
    (itemTokens items).foldlM Progress.step ⟨.commaOrClose, .array done :: stack⟩ =
      some (Progress.finish stack (.array (done.reverse ++ items))) := by
  induction items generalizing done with
  | nil =>
    rw [List.append_nil]
    rfl
  | cons item items ih =>
    obtain ⟨hitem, hitems⟩ := List.forall_mem_cons.mp h
    have hcomma : Progress.step ⟨.commaOrClose, .array done :: stack⟩ .comma =
        some ⟨.value, .array done :: stack⟩ := rfl
    have hrest := ih hitems (item :: done)
    rw [List.reverse_cons, List.append_assoc] at hrest
    rw [itemTokens, List.foldlM_cons, hcomma, Option.bind_eq_bind, Option.bind_some,
      List.foldlM_append, hitem _ _ (expects_value _)]
    exact hrest

lemma foldlM_memberTokens {members : List Member} (h : ∀ m ∈ members, ReadsAs m.value.tokens m.value)
    (done : List Member) (stack : List Frame) :
    (memberTokens members).foldlM Progress.step ⟨.commaOrCloseObject done, stack⟩ =
      some (Progress.finish stack (.object (done.reverse ++ members))) := by
  induction members generalizing done with
  | nil =>
    rw [List.append_nil]
    rfl
  | cons m members ih =>
    obtain ⟨hm, hmembers⟩ := List.forall_mem_cons.mp h
    obtain ⟨key, value⟩ := m
    have hrest := ih hmembers (⟨key, value⟩ :: done)
    rw [List.reverse_cons, List.append_assoc] at hrest
    rw [memberTokens, Member.tokens, List.cons_append, List.cons_append]
    change ((Json.tokens value) ++ memberTokens members).foldlM Progress.step
      ⟨.value, .object done key :: stack⟩ = _
    rw [List.foldlM_append, hm _ _ (expects_value _)]
    exact hrest

lemma readsAs_tokens {P : Numeral → Prop} {v : Json} (h : v.Made P) : ReadsAs v.tokens v := by
  induction h with
  | null => exact .of_token (by decide) fun _ => rfl
  | bool value =>
    cases value with
    | true => exact .of_token (by decide) fun _ => rfl
    | false => exact .of_token (by decide) fun _ => rfl
  | number h => exact .of_token (fun h => nomatch h) fun _ => rfl
  | string text => exact .of_token (fun h => nomatch h) fun _ => rfl
  | @array items _ ih =>
    intro p stack hp
    have hopen : p.step .openArray = some ⟨.valueOrClose, .array [] :: stack⟩ := hp _ (by decide)
    cases items with
    | nil =>
      rw [tokens, List.foldlM_cons, hopen]
      rfl
    | cons item items =>
      obtain ⟨hitem, hitems⟩ := List.forall_mem_cons.mp ih
      rw [tokens, List.foldlM_cons, hopen, Option.bind_eq_bind, Option.bind_some, List.foldlM_append,
        hitem _ _ (expects_valueOrClose _)]
      exact foldlM_itemTokens hitems [item] stack
  | @object members _ _ ih =>
    intro p stack hp
    have hopen : p.step .openObject = some ⟨.keyOrClose, stack⟩ := hp _ (by decide)
    cases members with
    | nil =>
      rw [tokens, List.foldlM_cons, hopen]
      rfl
    | cons m members =>
      obtain ⟨hm, hmembers⟩ := List.forall_mem_cons.mp ih
      obtain ⟨key, value⟩ := m
      rw [tokens, List.foldlM_cons, hopen, Option.bind_eq_bind, Option.bind_some, Member.tokens,
        List.cons_append, List.cons_append]
      change ((Json.tokens value) ++ memberTokens members).foldlM Progress.step
        ⟨.value, .object [] key :: stack⟩ = _
      rw [List.foldlM_append, hm _ _ (expects_value _)]
      exact foldlM_memberTokens hmembers [⟨key, value⟩] stack

end Reading

/-- A value is read back from the text that it is written as. -/
theorem parse?_render {v : Json} (h : v.Made IsWritten) (indented : Bool) :
    parse? (v.render indented).toList = some v := by
  rw [parse?, tokens?_render h, Option.bind_some, ofTokens?,
    readsAs_tokens h _ _ (expects_value [])]
  rfl

end ScriptContainer.Json
