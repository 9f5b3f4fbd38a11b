/-
This file compares an import that drops carriage returns with one of the text
without them.

The carriage returns in front of line feeds are dropped by moving the rest of the
buffer down, but no terminator is written behind what was moved: the last bytes
of the buffer stay where they were, as many as were dropped. The loop over the
entries stops at the new size, but the parser of one entry stops only at a
separator or terminator. Every round of the parser that ends inside of the text
therefore asks for the same, and the last one may read on.
-/

import TachyonBoot.Env.ExportImport
import TachyonBoot.Env.Refinement

namespace TachyonBoot.Env

open List

/-! ### The text -/

/-- Every carriage return and line feed is replaced by the line feed. -/
def replaceCrLf : List UInt8 → List UInt8
  | [] => []
  | char :: rest =>
    match rest with
    | next :: _ =>
      if char = carriageReturn ∧ next = newline then replaceCrLf rest
      else char :: replaceCrLf rest
    | [] => [char]

/-- On a buffer without a terminator the loop of `himport_r()` replaces all of them. -/
theorem dropCarriageReturns_eq {env : List UInt8} (noNul : 0 ∉ env) :
    dropCarriageReturns env = replaceCrLf env := by
  induction env with
  | nil => rfl
  | cons char rest ih =>
    rw [mem_cons, not_or] at noNul
    rw [dropCarriageReturns, if_neg (Ne.symm noNul.1), ih noNul.2]
    cases rest with
    | nil => simp [replaceCrLf]
    | cons next rest => simp [replaceCrLf]

/-- The bytes of the buffer that stand behind the text. -/
def leftBehind (env : List UInt8) : List UInt8 := env.drop (replaceCrLf env).length

theorem replaceCrLf_sublist (env : List UInt8) : (replaceCrLf env).Sublist env := by
  induction env with
  | nil => exact List.Sublist.slnil
  | cons char rest ih =>
    cases rest with
    | nil => exact List.Sublist.refl _
    | cons next rest =>
      rw [replaceCrLf]
      split
      · exact ih.cons char
      · exact ih.cons_cons char

theorem replaceCrLf_eq_nil {env : List UInt8} (empty : replaceCrLf env = []) : env = [] := by
  induction env with
  | nil => rfl
  | cons char rest ih =>
    cases rest with
    | nil => cases empty
    | cons next rest =>
      rw [replaceCrLf] at empty
      split at empty
      · cases ih empty
      · cases empty

/-! ### Parsing with something behind the text -/

section Parsing

variable {sep : UInt8}

/-- A loop over bytes stops inside of the text, or goes on behind it. -/
theorem dropWhile_append_cases (goesOn : UInt8 → Bool) (text behind : List UInt8) :
    (text.dropWhile goesOn ≠ [] ∧
      (text ++ behind).dropWhile goesOn = text.dropWhile goesOn ++ behind ∧
      (text ++ behind).takeWhile goesOn = text.takeWhile goesOn) ∨
    (text.dropWhile goesOn = [] ∧
      (text ++ behind).dropWhile goesOn = behind.dropWhile goesOn) := by
  induction text with
  | nil => exact Or.inr ⟨rfl, rfl⟩
  | cons char text ih =>
    by_cases more : goesOn char = true
    · simpa [more] using ih
    · exact Or.inl (by simp [more])

theorem parseValue_stop {stop : List UInt8}
    (stops : current stop = 0 ∨ current stop = sep) : parseValue sep stop = ([], stop) := by
  match stop with
  | [] => rfl
  | [char] =>
    have ends : char = 0 ∨ char = sep := stops
    rw [parseValue, if_pos ends]
  | char :: next :: rest =>
    have ends : char = 0 ∨ char = sep := stops
    rw [parseValue, if_pos ends]

theorem parseValue_suffix (text : List UInt8) : (parseValue sep text).2 <:+ text := by
  fun_induction parseValue sep text with
  | case1 => exact suffix_rfl
  | case2 => exact suffix_rfl
  | case3 => exact nil_suffix
  | case4 => exact suffix_rfl
  | case5 char next rest _ _ value stop parsed ih =>
    rw [parsed] at ih
    exact (ih.trans (suffix_cons _ _)).trans (suffix_cons _ _)
  | case6 char next rest _ _ value stop parsed ih =>
    rw [parsed] at ih
    exact ih.trans (suffix_cons _ _)

theorem parseValue_append (text behind : List UInt8) :
    ((parseValue sep text).2 ≠ [] ∧
      parseValue sep (text ++ behind) =
        ((parseValue sep text).1, (parseValue sep text).2 ++ behind)) ∨
    ((parseValue sep text).2 = [] ∧ (parseValue sep (text ++ behind)).2 <:+ behind) := by
  fun_induction parseValue sep text with
  | case1 => exact Or.inr ⟨rfl, parseValue_suffix behind⟩
  | case2 char stops => exact Or.inl ⟨cons_ne_nil _ _, parseValue_stop stops⟩
  | case3 char goesOn =>
    refine Or.inr ⟨rfl, ?_⟩
    cases behind with
    | nil => rw [append_nil, parseValue, if_neg goesOn]
    | cons next behind =>
      rw [singleton_append, parseValue, if_neg goesOn]
      split
      · exact (parseValue_suffix behind).trans (suffix_cons _ _)
      · exact parseValue_suffix _
  | case4 char next rest stops => exact Or.inl ⟨cons_ne_nil _ _, parseValue_stop stops⟩
  | case5 char next rest goesOn escaped value stop parsed ih =>
    rw [cons_append, cons_append, parseValue, if_neg goesOn, if_pos escaped]
    rw [parsed] at ih
    rcases ih with ⟨inside, appended⟩ | ⟨outside, suffix⟩
    · exact Or.inl ⟨inside, by rw [appended]⟩
    · exact Or.inr ⟨outside, suffix⟩
  | case6 char next rest goesOn plain value stop parsed ih =>
    rw [cons_append, cons_append, parseValue, if_neg goesOn, if_neg plain]
    rw [parsed, cons_append] at ih
    rcases ih with ⟨inside, appended⟩ | ⟨outside, suffix⟩
    · exact Or.inl ⟨inside, by rw [appended]⟩
    · exact Or.inr ⟨outside, suffix⟩

variable (sep) in
/-- A round of the parser from behind the name on. -/
def afterName (name stop : List UInt8) : ImportAction × List UInt8 :=
  if current stop = 0 ∨ current stop.tail = 0 ∨ current stop = sep ∨ current stop.tail = sep then
    (.delete name, (if current stop = equalsSign then stop.tail else stop).tail)
  else
    (if name = [] then .emptyKey else .enter name (parseValue sep stop.tail).1,
      (parseValue sep stop.tail).2.tail)

theorem parseEntry_eq (rest : List UInt8) :
    parseEntry sep rest =
      if current (rest.dropWhile isblank) = hashSign then
        (.comment, ((rest.dropWhile isblank).dropWhile fun char => char != 0 && char != sep).tail)
      else
        afterName sep ((rest.dropWhile isblank).takeWhile (isNameChar sep))
          ((rest.dropWhile isblank).dropWhile (isNameChar sep)) := by
  rw [parseEntry, afterName]
  dsimp only
  split
  · rfl
  · split
    · rfl
    · split <;> rfl

theorem afterName_cons_cons (name : List UInt8) (char next : UInt8) (more : List UInt8) :
    afterName sep name (char :: next :: more) =
      if char = 0 ∨ next = 0 ∨ char = sep ∨ next = sep then
        (.delete name, (if char = equalsSign then next :: more else char :: next :: more).tail)
      else
        (if name = [] then .emptyKey else .enter name (parseValue sep (next :: more)).1,
          (parseValue sep (next :: more)).2.tail) := rfl

theorem afterName_tail (name stop : List UInt8) :
    ∃ last, last <:+ stop ∧ (afterName sep name stop).2 = last.tail := by
  rw [afterName]
  split
  · refine ⟨_, ?_, rfl⟩
    split
    · exact tail_suffix _
    · exact suffix_rfl
  · exact ⟨_, (parseValue_suffix _).trans (tail_suffix _), rfl⟩

theorem parseEntry_tail (rest : List UInt8) :
    ∃ last, last <:+ rest.dropWhile isblank ∧ (parseEntry sep rest).2 = last.tail := by
  rw [parseEntry_eq]
  split
  · exact ⟨_, dropWhile_suffix _, rfl⟩
  · obtain ⟨last, suffix, result⟩ := @afterName_tail sep
      ((rest.dropWhile isblank).takeWhile (isNameChar sep))
      ((rest.dropWhile isblank).dropWhile (isNameChar sep))
    exact ⟨last, suffix.trans (dropWhile_suffix _), result⟩

theorem parseEntry_suffix (rest : List UInt8) : (parseEntry sep rest).2 <:+ rest := by
  obtain ⟨last, suffix, result⟩ := @parseEntry_tail sep rest
  rw [result]
  exact ((tail_suffix _).trans suffix).trans (dropWhile_suffix _)

/-- What follows the text matters to a round only if nothing is left of the text after it. -/
def RoundEnds (before after : ImportAction × List UInt8) (behind : List UInt8) : Prop :=
  (before.2 ≠ [] ∧ after = (before.1, before.2 ++ behind)) ∨
    (before.2 = [] ∧ after.2 <:+ behind)

theorem roundEnds_append (action : ImportAction) (rest behind : List UInt8) :
    RoundEnds (action, rest) (action, rest ++ behind) behind := by
  by_cases empty : rest = []
  · rw [empty]
    exact Or.inr ⟨rfl, suffix_rfl⟩
  · exact Or.inl ⟨empty, rfl⟩

theorem afterName_append (name behind : List UInt8) {stop : List UInt8} (nonempty : stop ≠ []) :
    RoundEnds (afterName sep name stop) (afterName sep name (stop ++ behind)) behind := by
  match stop, nonempty with
  | [char], _ =>
    have deletes : current [char] = 0 ∨ current [char].tail = 0 ∨ current [char] = sep ∨
        current [char].tail = sep := Or.inr (Or.inl rfl)
    refine Or.inr ⟨?_, ?_⟩
    · rw [afterName, if_pos deletes]
      split <;> rfl
    · obtain ⟨last, suffix, result⟩ := @afterName_tail sep name ([char] ++ behind)
      rw [result]
      rcases suffix_cons_iff.mp suffix with rfl | inner
      · exact suffix_rfl
      · exact (tail_suffix _).trans inner
  | char :: next :: more, _ =>
    -- both bytes that the branch depends on are in the text
    rw [cons_append, cons_append, afterName_cons_cons, afterName_cons_cons]
    by_cases deletes : char = 0 ∨ next = 0 ∨ char = sep ∨ next = sep
    · rw [if_pos deletes, if_pos deletes]
      split
      · exact roundEnds_append _ more behind
      · exact roundEnds_append _ (next :: more) behind
    · rw [if_neg deletes, if_neg deletes]
      rcases @parseValue_append sep (next :: more) behind with
        ⟨inside, appended⟩ | ⟨outside, suffix⟩
      · rw [cons_append] at appended
        rw [appended]
        obtain ⟨last, stop, stop_eq⟩ := exists_cons_of_ne_nil inside
        rw [stop_eq]
        exact roundEnds_append _ stop behind
      · rw [cons_append] at suffix
        refine Or.inr ⟨?_, (tail_suffix _).trans suffix⟩
        rw [outside]
        rfl

/-- A round of the parser with something behind the text. -/
theorem parseEntry_append (text behind : List UInt8) :
    RoundEnds (parseEntry sep text) (parseEntry sep (text ++ behind)) behind := by
  rcases dropWhile_append_cases isblank text behind with
    ⟨nonempty, start, _⟩ | ⟨empty, start⟩
  · obtain ⟨first, rest, first_eq⟩ := exists_cons_of_ne_nil nonempty
    rw [parseEntry_eq, parseEntry_eq, start]
    have same : current (text.dropWhile isblank ++ behind) = current (text.dropWhile isblank) := by
      rw [first_eq]
      rfl
    rw [same]
    by_cases comment : current (text.dropWhile isblank) = hashSign
    · rw [if_pos comment, if_pos comment]
      rcases dropWhile_append_cases (fun char => char != 0 && char != sep)
        (text.dropWhile isblank) behind with ⟨inside, stop, _⟩ | ⟨outside, stop⟩
      · obtain ⟨last, stop', stop_eq⟩ := exists_cons_of_ne_nil inside
        rw [stop, stop_eq]
        exact roundEnds_append _ stop' behind
      · rw [stop, outside]
        exact Or.inr ⟨rfl, (tail_suffix _).trans (dropWhile_suffix _)⟩
    · rw [if_neg comment, if_neg comment]
      rcases dropWhile_append_cases (isNameChar sep) (text.dropWhile isblank) behind with
        ⟨inside, stop, name⟩ | ⟨outside, stop⟩
      · rw [stop, name]
        exact afterName_append _ behind inside
      · rw [stop, outside]
        obtain ⟨last, suffix, result⟩ := @afterName_tail sep
          ((text.dropWhile isblank ++ behind).takeWhile (isNameChar sep))
          (behind.dropWhile (isNameChar sep))
        refine Or.inr ⟨rfl, ?_⟩
        rw [result]
        exact ((tail_suffix _).trans suffix).trans (dropWhile_suffix _)
  · -- the text is blank
    refine Or.inr ⟨?_, ?_⟩
    · rw [parseEntry_eq, empty]
      rfl
    · obtain ⟨last, suffix, result⟩ := @parseEntry_tail sep (text ++ behind)
      rw [result]
      rw [start] at suffix
      exact ((tail_suffix _).trans suffix).trans (dropWhile_suffix _)

end Parsing

/-! ### What an import asks for -/

section Requests

variable (sep : UInt8)

/-- What the loop of `himport_r()` asks of the table, one request for each round. -/
def importRequests (slack : Nat) : Nat → List UInt8 → List ImportAction
  | 0, _ => []
  | fuel + 1, rest =>
    let round := parseEntry sep rest
    round.1 :: if round.1 ≠ .emptyKey ∧ slack < round.2.length ∧ current round.2 ≠ 0 then
      importRequests slack fuel round.2 else []

/-- The part of a text that the last round reads. -/
def lastRound : Nat → List UInt8 → List UInt8
  | 0, rest => rest
  | count + 1, rest =>
    if (parseEntry sep rest).1 = .emptyKey ∨ (parseEntry sep rest).2 = [] then rest
    else lastRound count (parseEntry sep rest).2

variable {sep}

theorem length_parseEntry (rest : List UInt8) :
    (parseEntry sep rest).2.length ≤ rest.length - 1 := by
  obtain ⟨last, suffix, result⟩ := @parseEntry_tail sep rest
  have shorter := (suffix.trans (dropWhile_suffix _)).length_le
  rw [result, length_tail]
  omega

theorem importRequests_last {slack fuel : Nat} {rest : List UInt8}
    (ends : (parseEntry sep rest).2.length ≤ slack) (fuelled : 0 < fuel) :
    importRequests sep slack fuel rest = [(parseEntry sep rest).1] := by
  obtain ⟨fuel, rfl⟩ := Nat.exists_eq_add_of_lt fuelled
  rw [importRequests, if_neg fun more => Nat.not_lt.mpr ends more.2.1]

theorem importRequests_last_iff {text behind : List UInt8} {fuel less : Nat} (plenty : 0 < fuel)
    (sufficient : 0 < less) (empty : (parseEntry sep text).2 = [])
    (suffix : (parseEntry sep (text ++ behind)).2 <:+ behind) :
    importRequests sep behind.length fuel (text ++ behind) = importRequests sep 0 less text ↔
      (parseEntry sep (text ++ behind)).1 = (parseEntry sep text).1 := by
  rw [importRequests_last suffix.length_le plenty,
    importRequests_last (by rw [empty]; exact le_rfl) sufficient, List.cons.injEq,
    and_iff_left rfl]

/-- The requests are the same with something behind the text if and only if the last one is. -/
theorem importRequests_append_iff {text behind : List UInt8} (noNul : 0 ∉ text)
    {count fuel less : Nat} (enough : text.length ≤ count) (plenty : text.length < fuel)
    (sufficient : text.length < less) :
    importRequests sep behind.length fuel (text ++ behind) = importRequests sep 0 less text ↔
      (parseEntry sep (lastRound sep count text ++ behind)).1 =
        (parseEntry sep (lastRound sep count text)).1 := by
  induction count generalizing text fuel less with
  | zero =>
    obtain rfl := eq_nil_of_length_eq_zero (Nat.le_zero.mp enough)
    rcases @parseEntry_append sep [] behind with ⟨nonempty, _⟩ | ⟨empty, suffix⟩
    · exact absurd rfl nonempty
    · exact importRequests_last_iff plenty sufficient empty suffix
  | succ count ih =>
    rw [lastRound]
    rcases @parseEntry_append sep text behind with ⟨nonempty, appended⟩ | ⟨empty, suffix⟩
    · obtain ⟨fuel, rfl⟩ := Nat.exists_eq_add_of_lt (Nat.zero_lt_of_lt plenty)
      obtain ⟨less, rfl⟩ := Nat.exists_eq_add_of_lt (Nat.zero_lt_of_lt sufficient)
      rw [importRequests, importRequests, appended]
      by_cases stops : (parseEntry sep text).1 = .emptyKey
      · rw [if_pos (Or.inl stops), appended]
        simp [stops]
      · have shorter := @length_parseEntry sep text
        have longer := length_pos_of_ne_nil nonempty
        have restNoNul : 0 ∉ (parseEntry sep text).2 := fun member =>
          noNul ((parseEntry_suffix text).subset member)
        obtain ⟨first, rest, rest_eq⟩ := exists_cons_of_ne_nil nonempty
        have goesOn : current ((parseEntry sep text).2 ++ behind) ≠ 0 ∧
            current (parseEntry sep text).2 ≠ 0 := by
          rw [rest_eq] at restNoNul ⊢
          have nonzero : first ≠ 0 := fun zero => restNoNul (zero ▸ mem_cons_self)
          exact ⟨nonzero, nonzero⟩
        dsimp only
        rw [if_pos ⟨stops, by rw [length_append]; omega, goesOn.1⟩,
          if_pos ⟨stops, longer, goesOn.2⟩, if_neg (not_or.mpr ⟨stops, nonempty⟩), List.cons.injEq,
          and_iff_right rfl]
        exact ih restNoNul (by omega) (by omega) (by omega)
    · rw [if_pos (Or.inr empty)]
      exact importRequests_last_iff (Nat.zero_lt_of_lt plenty) (Nat.zero_lt_of_lt sufficient) empty
        suffix

variable (charValue : UInt8 → UInt32) (policy : Policy)

/-- The requests are met one by one until one fails. -/
def meetRequests (flag : Nat) : ImportState → List ImportAction → Option (Bool × ImportState)
  | state, [] => some (true, state)
  | state, request :: rest =>
    match importApply charValue policy flag state request with
    | none => none
    | some (false, state) => some (false, state)
    | some (true, state) => meetRequests flag state rest

theorem himportLoop_eq {flag slack fuel : Nat} {rest : List UInt8} (enough : rest.length < fuel)
    (state : ImportState) :
    himportLoop charValue policy sep flag slack fuel state rest =
      meetRequests charValue policy flag state (importRequests sep slack fuel rest) := by
  induction fuel generalizing rest state with
  | zero => exact absurd enough (Nat.not_lt_zero _)
  | succ fuel ih =>
    have shorter := @length_parseEntry sep rest
    rw [himportLoop, importRequests]
    dsimp only
    rw [meetRequests]
    cases applied : importApply charValue policy flag state (parseEntry sep rest).1 with
    | none => rfl
    | some outcome =>
      obtain ⟨goesOn, after⟩ := outcome
      cases goesOn with
      | false => rfl
      | true =>
        have proper : (parseEntry sep rest).1 ≠ .emptyKey := by
          intro empty
          rw [empty] at applied
          cases applied
        dsimp only
        by_cases more : slack < (parseEntry sep rest).2.length ∧ current (parseEntry sep rest).2 ≠ 0
        · rw [if_pos more, if_pos ⟨proper, more⟩]
          exact ih (by omega) after
        · rw [if_neg more, if_neg fun all => more all.2]
          rfl

end Requests

/-! ### The import -/

/-- The last round of the parser asks for the same whether the bytes that were left behind follow
the text or not. -/
def ReadsSame (env : List UInt8) : Prop :=
  let text := replaceCrLf env
  let last := lastRound newline text.length text
  (parseEntry newline (last ++ leftBehind env)).1 = (parseEntry newline last).1

instance instDecidableReadsSame (env : List UInt8) : Decidable (ReadsSame env) :=
  inferInstanceAs (Decidable (_ = _))

/-- The table that an import of a buffer of the given size starts with. -/
def startTable (htab : Option HTab) (flag : Nat) (vars : List CString) (size : Nat) :
    Option HTab :=
  (if !flag.testBit 0 && vars.isEmpty then none else htab).or (hcreateR (importEntries size))

/-- The two imports start with the same table. -/
def SameTable (htab : Option HTab) (flag : Nat) (vars : List CString) (env : List UInt8) : Prop :=
  startTable htab flag vars env.length = startTable htab flag vars (replaceCrLf env).length

section Import

variable (charValue : UInt8 → UInt32) (policy : Policy)

/-- The import after the table was created: the loop meets the requests, then the variables that
were not listed are deleted. -/
def importInto (flag : Nat) (vars : List CString) (requests : List ImportAction) (table : HTab) :
    Option (Nat × HTab) :=
  match meetRequests charValue policy flag { htab := table, vars := vars.map some } requests with
  | none => none
  | some (false, state) => some (0, state.htab)
  | some (true, state) =>
    if flag.testBit 0 then some (1, state.htab)
    else (dropUnlisted charValue policy flag state.htab state.vars).map fun htab => (1, htab)

theorem himportR_eq {htab : Option HTab} {env kept : List UInt8} {flag slack : Nat}
    {crlfIsLf : Bool} {vars : List CString} (nonempty : env ≠ [])
    (kept_eq : (if crlfIsLf then dropCarriageReturns env else env) = kept)
    (slack_eq : (if crlfIsLf then (env.takeWhile (· != 0)).length - kept.length else 0) = slack)
    (shorter : kept.length ≤ env.length) :
    himportR charValue policy htab env newline flag crlfIsLf vars =
      (startTable htab flag vars env.length).bind (importInto charValue policy flag vars
        (importRequests newline slack (env.length + 1) (kept ++ env.drop kept.length))) := by
  have enough : (kept ++ env.drop kept.length).length < env.length + 1 := by
    rw [length_append, length_drop]
    omega
  rw [himportR, startTable]
  simp only [kept_eq, slack_eq, if_neg nonempty, himportLoop_eq charValue policy enough]
  cases (if !flag.testBit 0 && vars.isEmpty then none else htab) with
  | some table => rfl
  | none =>
    cases hcreateR (importEntries env.length) with
    | none => rfl
    | some table => rfl

theorem himportR_crlf_eq {env : List UInt8} (noNul : 0 ∉ env)
    (requests : importRequests newline (leftBehind env).length (env.length + 1)
        (replaceCrLf env ++ leftBehind env) =
      importRequests newline 0 ((replaceCrLf env).length + 1) (replaceCrLf env))
    {htab : Option HTab} {flag : Nat} {vars : List CString} (same : SameTable htab flag vars env) :
    himportR charValue policy htab env newline flag true vars =
      himportR charValue policy htab (replaceCrLf env) newline flag false vars := by
  by_cases empty : env = []
  · subst empty
    rfl
  have textNonempty : replaceCrLf env ≠ [] := fun nothing => empty (replaceCrLf_eq_nil nothing)
  have whole : env.takeWhile (· != 0) = env := by
    have all : ∀ char ∈ env, (char != 0) = true := fun char member => by
      have nonzero : char ≠ 0 := fun zero => noNul (zero ▸ member)
      simpa using nonzero
    simpa using @takeWhile_append_of_pos _ (· != 0) env [] all
  have shorter := (replaceCrLf_sublist env).length_le
  have left : (if true then (env.takeWhile (· != 0)).length - (replaceCrLf env).length else 0) =
      (leftBehind env).length := by
    rw [if_pos rfl, whole, leftBehind, length_drop]
  have crlf := @himportR_eq charValue policy htab env (replaceCrLf env) flag
    (leftBehind env).length true vars empty (dropCarriageReturns_eq noNul) left shorter
  have lf := @himportR_eq charValue policy htab (replaceCrLf env) (replaceCrLf env) flag 0 false
    vars textNonempty rfl rfl le_rfl
  rw [drop_length, append_nil] at lf
  rw [crlf, lf, ← leftBehind, requests, show startTable htab flag vars env.length = _ from same]

end Import

/-- Dropping carriage returns asks the same of the table as the text without them exactly when the
last round does, and then leaves the same table, provided that it starts with the same one. -/
theorem himportR_crlf_reads (env : List UInt8) (noNul : 0 ∉ env) :
    (importRequests newline (leftBehind env).length (env.length + 1)
          (replaceCrLf env ++ leftBehind env) =
        importRequests newline 0 ((replaceCrLf env).length + 1) (replaceCrLf env) ↔
      ReadsSame env) ∧
    (ReadsSame env → ∀ charValue policy htab flag vars, SameTable htab flag vars env →
      himportR charValue policy htab env newline flag true vars =
        himportR charValue policy htab (replaceCrLf env) newline flag false vars) := by
  have sublist := replaceCrLf_sublist env
  have shorter := sublist.length_le
  have exact' := @importRequests_append_iff newline (replaceCrLf env) (leftBehind env)
    (fun member => noNul (sublist.subset member)) _ _ _ le_rfl (Nat.lt_succ_of_le shorter)
    (Nat.lt_succ_self _)
  exact ⟨exact', fun same charValue policy htab flag vars table =>
    himportR_crlf_eq charValue policy noNul (exact'.mpr same) table⟩

/-- The lines `a=1` and `b=2`, each with its end. -/
def closedLines : List UInt8 := [97, 61, 49, 13, 10, 98, 61, 50, 13, 10]

theorem himportR_crlf_reads_closedLines :
    himportR UInt8.toUInt32 allowAll none closedLines newline 0 true [] =
      himportR UInt8.toUInt32 allowAll none (replaceCrLf closedLines) newline 0 false [] :=
  (himportR_crlf_reads closedLines (by decide +kernel)).2 (by decide +kernel) UInt8.toUInt32
    allowAll none 0 [] rfl

/-- The same lines without the end of the last one. -/
def openLines : List UInt8 := [97, 61, 49, 13, 10, 98, 61, 50]

/-- The value of a variable after an import into a new table. -/
def importedValue (env : List UInt8) (crlfIsLf : Bool) (name : CString) : Option CString :=
  (himportR UInt8.toUInt32 allowAll none env newline 0 crlfIsLf []).bind fun result =>
    htabFind UInt8.toUInt32 allowAll 0 result.2 name

/-- The one byte that was left behind is read as part of the last value. -/
theorem openLines_reads_on :
    importedValue openLines true [98] = some [50, 50] ∧
      importedValue (replaceCrLf openLines) false [98] = some [50] := by
  decide +kernel

end TachyonBoot.Env
