import DurableTasks.Visibility.RoundTrip
import Mathlib.Data.String.Basic

/-!
Numbers as search attributes. A number is compared by the text it is printed as,
which orders as the number does only for 0 and 1.
-/

namespace DurableTasks.Visibility

/-! ## Numbers as they are printed -/

/-- A whole number in exponent form: its digits without the zeros at the end, and
an exponent of two digits or more. -/
def exponentText (m : Nat) : String :=
  let ds := Nat.toDigits 10 m
  let sig := (ds.reverse.dropWhile (· == '0')).reverse
  let e := ds.length - 1
  String.ofList (sig.take 1 ++ if sig.length ≤ 1 then [] else '.' :: sig.drop 1) ++ "e+" ++
    (if e < 10 then "0" else "") ++ toString e

/-- `fmt.Sprint` of the `float64` that an integer is read as, which is the integer
itself up to six digits and printed in exponent form from seven digits on. One
beyond `float64` is not read at all. -/
def sprintInt (n : Int) : String :=
  if n.natAbs < 10 ^ 6 then toString n
  else
    match Float64.ofRat n with
    | some d => (if n < 0 then "-" else "") ++ exponentText (Float64.shortest d).num.natAbs
    | none => ""

/-- How values are printed, where whole numbers are printed as `fmt.Sprint` does. -/
def printing (time : Nat → String) (other : Json → String) : Printing where
  time := time
  sprint
    | .num q => if q.den = 1 then sprintInt q.num else other (.num q)
    | j => other j

example : [0, 999999, 1000000, -12345678].map sprintInt =
    ["0", "999999", "1e+06", "-1.2345678e+07"] := by
  decide +kernel

/-! ## Literals -/

theorem toList_toString (a : Int) :
    (toString a).toList = (if a < 0 then ['-'] else []) ++ Nat.toDigits 10 a.natAbs := by
  cases a with
  | ofNat m =>
    rw [if_neg (by simp)]
    change (Nat.repr m).toList = _
    rw [Nat.repr_eq_ofList_toDigits, String.toList_ofList]
    rfl
  | negSucc m =>
    rw [if_pos (Int.negSucc_lt_zero m)]
    change ("-" ++ Nat.repr (m + 1)).toList = _
    simp only [String.toList_append, Nat.repr_eq_ofList_toDigits, String.toList_ofList]
    rfl

theorem isDigit_of_mem_toDigits {m : Nat} {c : Char} (h : c ∈ Nat.toDigits 10 m) : isDigit c := by
  have hc := Nat.isDigit_of_mem_toDigits (by decide) (by decide) h
  simpa [isDigit, Char.isDigit, Char.le_def] using hc

theorem exists_toDigits (m : Nat) : ∃ c cs, Nat.toDigits 10 m = c :: cs := by
  cases h : Nat.toDigits 10 m with
  | nil => exact absurd h Nat.toDigits_ne_nil
  | cons c cs => exact ⟨c, cs, rfl⟩

theorem one_le_head_toDigits {m : Nat} (hm : 0 < m) :
    ∃ c cs, Nat.toDigits 10 m = c :: cs ∧ '1' ≤ c := by
  induction m using Nat.strong_induction_on with
  | _ m ih =>
    by_cases hlt : m < 10
    · refine ⟨_, [], Nat.toDigits_of_lt_base hlt, ?_⟩
      rw [Char.le_def, UInt32.le_iff_toNat_le]
      change 49 ≤ (Nat.digitChar m).toNat
      rw [Nat.toNat_digitChar_of_lt_ten hlt]
      omega
    · obtain ⟨c, cs, hcs, hc⟩ := ih (m / 10) (by omega) (by omega)
      exact ⟨c, cs ++ [(m % 10).digitChar],
        by rw [Nat.toDigits_of_base_le (by decide) (by omega), hcs]; rfl, hc⟩

theorem e_not_mem_toString (a : Int) : 'e' ∉ (toString a).toList := by
  rw [toList_toString, List.mem_append, not_or]
  refine ⟨by split_ifs <;> simp, fun h => ?_⟩
  exact absurd (isDigit_of_mem_toDigits h) (by decide)

theorem sprintInt_of_small {n : Int} (hn : n.natAbs < 10 ^ 6) : sprintInt n = toString n :=
  if_pos hn

theorem e_mem_exponentText (m : Nat) : 'e' ∈ (exponentText m).toList := by
  simp [exponentText]

/-- In exponent form a number is not the text of a literal. -/
theorem sprintInt_of_large {n : Int} (hn : 10 ^ 6 ≤ n.natAbs) : sprintInt n ≠ toString n := by
  intro h
  rw [sprintInt, if_neg (by omega)] at h
  cases hd : Float64.ofRat n with
  | none =>
    obtain ⟨c, cs, hcs⟩ := exists_toDigits n.natAbs
    have hlist := congrArg String.toList h
    rw [hd, toList_toString, hcs] at hlist
    simp at hlist
  | some d =>
    rw [hd] at h
    exact e_not_mem_toString n (h ▸ by simp [e_mem_exponentText])

/-! ## Order -/

/-- The text stands to every literal as the number does. -/
def Agrees (s : String) (n : Int) : Prop :=
  ∀ a : Int, (a < n → toString a < s) ∧ (a = n → toString a = s) ∧ (n < a → s < toString a)

theorem agrees_zero : Agrees "0" 0 := by
  intro a
  refine ⟨fun h => ?_, fun h => by rw [h]; rfl, fun h => ?_⟩
  · rw [String.lt_iff, toList_toString, if_pos h]
    exact List.cons_lt_cons_iff.mpr (.inl (by decide))
  · obtain ⟨c, cs, hcs, hc⟩ := one_le_head_toDigits (m := a.natAbs) (by omega)
    rw [String.lt_iff, toList_toString, if_neg (by omega), hcs]
    exact List.cons_lt_cons_iff.mpr (.inl (lt_of_lt_of_le (by decide) hc))

theorem agrees_one : Agrees "1" 1 := by
  intro a
  refine ⟨fun h => ?_, fun h => by rw [h]; rfl, fun h => ?_⟩
  · obtain hneg | rfl : a < 0 ∨ a = 0 := by omega
    · rw [String.lt_iff, toList_toString, if_pos hneg]
      exact List.cons_lt_cons_iff.mpr (.inl (by decide))
    · decide
  · obtain ⟨c, cs, hcs, hc⟩ := one_le_head_toDigits (m := a.natAbs) (by omega)
    have htext : (toString a).toList = c :: cs := by
      rw [toList_toString, if_neg (by omega), hcs]
      rfl
    rw [String.lt_iff, htext]
    rcases lt_or_eq_of_le hc with hlt | rfl
    · exact List.cons_lt_cons_iff.mpr (.inl hlt)
    · -- with the same first digit, the literal is longer
      refine List.cons_lt_cons_iff.mpr (.inr ⟨rfl, ?_⟩)
      cases cs with
      | nil =>
        have hone := Nat.ofDigitChars_toDigits (b := 10) (n := a.natAbs) (by decide) (by decide)
        rw [hcs] at hone
        change 1 = a.natAbs at hone
        omega
      | cons d cs => exact List.nil_lt_cons d cs

/-- No other number is ordered as its text. -/
theorem agrees_iff {n : Int} : Agrees (sprintInt n) n ↔ n = 0 ∨ n = 1 := by
  constructor
  · intro h
    have hsmall : n.natAbs < 10 ^ 6 := by
      by_contra hlarge
      exact sprintInt_of_large (not_lt.mp hlarge) ((h n).2.1 rfl).symm
    by_contra hne
    rcases lt_trichotomy n 2 with hlt | rfl | hgt
    · rcases lt_trichotomy n (-1) with hlt' | rfl | hgt'
      · have h₁ := (h (-1)).2.2 hlt'
        have h₂ := (h (-1000000)).1 (by omega)
        exact absurd (h₂.trans h₁) (by decide +kernel)
      · exact absurd ((h (-2)).1 (by decide)) (by decide +kernel)
      · omega
    · exact absurd ((h 10).2.2 (by decide)) (by decide +kernel)
    · have h₁ := (h 1000000).2.2 (by omega)
      have h₂ := (h 2).1 hgt
      exact absurd (h₂.trans h₁) (by decide +kernel)
  · rintro (rfl | rfl)
    · exact sprintInt_of_small (n := 0) (by decide) ▸ agrees_zero
    · exact sprintInt_of_small (n := 1) (by decide) ▸ agrees_one

/-! ## Queries -/

/-- The fields that are not search attributes. -/
def ownFields : List String :=
  ["WorkflowType", "WorkflowId", "RunId", "ExecutionStatus", "StartTime", "CloseTime", "TaskQueue"]

def literals (a : Int) : List Int → String
  | [] => toString a
  | b :: l => toString a ++ ", " ++ literals b l

/-- Whether a query selects a run, or none where the query is refused. -/
def queried (P : Printing) (p : RunRef × WorkflowExecution) (query : String) : Option Bool :=
  (parseVisibilityQuery query).toOption.map fun expr => selects P expr p

def Op.relates (o : Op) (n a : Int) : Bool :=
  match o with
  | .eq => n = a
  | .ne => n ≠ a
  | .gt => a < n
  | .lt => n < a
  | .ge => a ≤ n
  | .le => n ≤ a

structure ComparesAsNumber (P : Printing) (p : RunRef × WorkflowExecution) (field : String)
  (n : Int) : Prop where
  op : ∀ (o : Op) (a : Int),
    queried P p (field ++ " " ++ o.text ++ " " ++ toString a) = some (o.relates n a)
  isIn : ∀ (a : Int) (l : List Int),
    queried P p (field ++ " IN (" ++ literals a l ++ ")") = some (decide (n ∈ a :: l))
  between : ∀ a b : Int,
    queried P p (field ++ " BETWEEN " ++ toString a ++ " AND " ++ toString b) =
      some (decide (a ≤ n ∧ n ≤ b))

section Queries

variable {P : Printing} {r : RunRef} {row : WorkflowExecution} {field : String} {n : Int}

theorem literal_turn (a : Int) {rest : List Char}
    (hr : ∀ d ∈ rest.head?, ¬(isDigit d || d == '.')) :
    Turn (toString a).toList [.num (toString a)] rest := by
  obtain ⟨c, cs, hcs⟩ := exists_toDigits a.natAbs
  have hdigit : ∀ d ∈ c :: cs, isDigit d := fun d hd => isDigit_of_mem_toDigits (hcs ▸ hd)
  have htext := toList_toString a
  rw [hcs] at htext
  have hback := congrArg String.ofList htext
  rw [String.ofList_toList] at hback
  rw [htext, hback]
  split_ifs
  · exact .num (.inr (.inl rfl)) (fun d hd => by simp [hdigit d hd]) hr
  · exact .num (.inl (hdigit c List.mem_cons_self))
      (fun d hd => by simp [hdigit d (List.mem_cons_of_mem c hd)]) hr

theorem lexes_literal (a : Int) : Lexes (toString a).toList [.num (toString a)] := by
  have hturn : Turn _ _ [] := literal_turn a (by simp)
  have h := Lexes.turn hturn .nil
  rwa [List.append_nil] at h

theorem lexes_literal_append (a : Int) {c : Char} {cs : List Char} {ts : List Token}
    (hc : ¬(isDigit c || c == '.')) (h : Lexes (c :: cs) ts) :
    Lexes ((toString a).toList ++ c :: cs) (.num (toString a) :: ts) :=
  .turn (literal_turn a (by simpa using hc)) h

theorem lexes_literals (a : Int) (l : List Int) :
    Lexes ((literals a l).toList ++ [')'])
      ((Values.mk (.num (toString a)) (l.map fun b => .num (toString b))).tokens ++ [.rparen]) := by
  induction l generalizing a with
  | nil => exact lexes_literal_append a (by decide) (.turn .rparen .nil)
  | cons b l ih =>
    have htext : (literals a (b :: l)).toList ++ [')'] =
        (toString a).toList ++ ',' :: ' ' :: ((literals b l).toList ++ [')']) := by
      simp [literals]
    rw [htext]
    exact lexes_literal_append a (by decide) (Chunk.comma _ _ (ih b))

theorem getLast?_literal (cs : List Char) (a : Int) :
    ∀ c ∈ (cs ++ (toString a).toList).getLast?, isSpace c = false := by
  obtain ⟨d, ds, hds⟩ := exists_toDigits a.natAbs
  rw [toList_toString, hds, ← List.append_assoc, List.getLast?_append_of_ne_nil _ (by simp)]
  intro c hc
  have hmem : c ∈ Nat.toDigits 10 a.natAbs := hds ▸ List.mem_of_getLast? hc
  have hnat := isDigit_iff.mp (isDigit_of_mem_toDigits hmem)
  simp [isSpace]
  omega

theorem queried_test (hf : isField field) (cs : List Char) (t : Test) {query : String}
    (hquery : query.toList = spaced field ++ cs) (hlex : Lexes cs t.tokens)
    (hne : cs ≠ []) (hlast : ∀ c ∈ cs.getLast?, isSpace c = false) :
    queried P (r, row) query = some ((t.tree field).eval P r row) := by
  have hl : Lexes (spaced field ++ cs)
      (Expr.mk (.mk (.atom (.comparison field t)) .nil) .nil).tokens := by
    have h := Chunk.field hf _ _ hlex
    simpa [Expr.tokens, OrMore.tokens, AndExpr.tokens, AndMore.tokens, NotExpr.tokens,
      Atom.tokens] using h
  have hfirst : ∀ c ∈ (spaced field ++ cs).head?, isSpace c = false := by
    intro c hc
    have hw := (Bool.and_eq_true_iff.mp hf).1
    rw [isWord] at hw
    cases hfield : field.toList with
    | nil => simp [hfield] at hw
    | cons d ds =>
      simp only [hfield, Bool.and_eq_true] at hw
      obtain rfl : d = c := by simpa [spaced, hfield] using hc
      have hnat := isLetter_iff.mp hw.1
      simp [isSpace]
      omega
  have hlast' : ∀ c ∈ (spaced field ++ cs).getLast?, isSpace c = false := by
    rwa [List.getLast?_append_of_ne_nil _ hne]
  have hback : query = String.ofList (spaced field ++ cs) := by rw [← hquery, String.ofList_toList]
  rw [queried, hback, hl.parse (by simp [spaced]) hfirst hlast']
  rfl

variable (hf : isField field)
include hf

theorem queried_op (o : Op) (a : Int) :
    queried P (r, row) (field ++ " " ++ o.text ++ " " ++ toString a) =
      some ((Node.cmp field o (toString a)).eval P r row) :=
  queried_test hf (spaced o.text ++ (toString a).toList) (.cmp o (.num (toString a)))
    (by simp [spaced]) (Chunk.op o _ _ (lexes_literal a)) (by simp [spaced])
    (getLast?_literal _ a)

theorem queried_isIn (a : Int) (l : List Int) :
    queried P (r, row) (field ++ " IN (" ++ literals a l ++ ")") =
      some ((Node.isIn field ((a :: l).map toString)).eval P r row) := by
  have htree : (Test.isIn ⟨.num (toString a), l.map fun b => .num (toString b)⟩).tree field =
      Node.isIn field ((a :: l).map toString) := by
    simp [Test.tree, Values.texts, Value.text, Function.comp_def]
  rw [← htree]
  refine queried_test hf (spaced "IN" ++ '(' :: ((literals a l).toList ++ [')'])) _
    (by simp [spaced]) ?_ (by simp [spaced]) ?_
  · exact Chunk.keyword .isIn _ _ (Chunk.lparen _ _ (lexes_literals a l))
  · rw [← List.cons_append, ← List.append_assoc, List.getLast?_concat]
    rintro _ ⟨⟩
    rfl

theorem queried_between (a b : Int) :
    queried P (r, row) (field ++ " BETWEEN " ++ toString a ++ " AND " ++ toString b) =
      some ((Node.between field (toString a) (toString b)).eval P r row) := by
  refine queried_test hf
    (spaced "BETWEEN" ++ ((toString a).toList ++ ' ' :: (spaced "AND" ++ (toString b).toList)))
    (.between (.num (toString a)) (.num (toString b))) (by simp [spaced]) ?_ (by simp [spaced]) ?_
  · refine Chunk.keyword .between _ _ (lexes_literal_append a (by decide) ?_)
    exact Chunk.space _ _ (Chunk.keyword .and _ _ (lexes_literal b))
  · simp only [← List.append_assoc, ← List.cons_append]
    exact getLast?_literal _ b

omit hf

/-- A search attribute is compared by its text. -/
theorem compared_attr (hown : field ∉ ownFields) {v : Json}
    (hrow : row.searchAttrs.find? (fun a => a.1 = field) = some (field, v)) :
    compared P r row field = P.sprint v := by
  simp only [ownFields, List.mem_cons, List.not_mem_nil, or_false, not_or] at hown
  obtain ⟨htype, hwf, hrun, hstatus, hstart, hclose, hqueue⟩ := hown
  rw [compared, compareValue, if_neg hstatus, fieldValue]
  · rw [hrow]
  all_goals assumption

end Queries

section Agreement

variable {s : String} {n : Int}

/-- Where a text agrees with a number, every comparison with a literal does. -/
theorem Agrees.holds (h : Agrees s n) (o : Op) (a : Int) :
    o.holds s (toString a) = o.relates n a := by
  obtain ⟨hlt, heq, hgt⟩ := h a
  generalize toString a = t at *
  rcases lt_trichotomy a n with han | rfl | han
  · have hs := hlt han
    cases o <;> simp [Op.holds, Op.relates, hs, hs.ne', hs.le, not_lt.mpr hs.le, not_le.mpr hs, han,
      han.ne', han.le, not_lt.mpr han.le, not_le.mpr han]
  · obtain rfl := heq rfl
    cases o <;> simp [Op.holds, Op.relates]
  · have hs := hgt han
    cases o <;> simp [Op.holds, Op.relates, hs, hs.ne, hs.le, not_lt.mpr hs.le, not_le.mpr hs, han,
      han.ne, han.le, not_lt.mpr han.le, not_le.mpr han]

theorem agrees_of_holds (h : ∀ (o : Op) (a : Int), o.holds s (toString a) = o.relates n a) :
    Agrees s n := by
  intro a
  have hgt := h .gt a
  have heq := h .eq a
  have hlt := h .lt a
  simp only [Op.holds, Op.relates, decide_eq_decide] at hgt heq hlt
  exact ⟨hgt.mpr, fun ha => (heq.mpr ha.symm).symm, hlt.mpr⟩

end Agreement

/-- A number is found by what it is exactly where it is 0 or 1. -/
theorem compares_as_number_iff (time : Nat → String) (other : Json → String) (r : RunRef)
    (row : WorkflowExecution) (field : String) (n : Int) (hf : isField field)
    (hown : field ∉ ownFields)
    (hrow : row.searchAttrs.find? (fun a => a.1 = field) = some (field, .num n)) :
    ComparesAsNumber (printing time other) (r, row) field n ↔ n = 0 ∨ n = 1 := by
  have hcompared : compared (printing time other) r row field = sprintInt n := by
    rw [compared_attr hown hrow]
    simp [printing]
  have hwant : ∀ v, compareValue field v = v :=
    fun v => if_neg fun h => hown (by simp [h, ownFields])
  rw [← agrees_iff]
  constructor
  · intro h
    refine agrees_of_holds fun o a => ?_
    have ho := h.op o a
    rw [queried_op hf, Option.some.injEq, Node.eval, hcompared, hwant] at ho
    exact ho
  · intro h
    refine ⟨fun o a => ?_, fun a l => ?_, fun a b => ?_⟩
    · rw [queried_op hf, Node.eval, hcompared, hwant, h.holds]
    · have heq : ∀ b : Int, sprintInt n = toString b ↔ n = b :=
        fun b => decide_eq_decide.mp (h.holds .eq b)
      rw [queried_isIn hf, Node.eval, hcompared, Option.some.injEq, Bool.eq_iff_iff,
        List.any_eq_true, decide_eq_true_iff]
      simp only [hwant, decide_eq_true_eq]
      constructor
      · rintro ⟨v, hv, hn⟩
        obtain ⟨b, hb, rfl⟩ := List.mem_map.mp hv
        exact (heq b).mp hn ▸ hb
      · intro hn
        exact ⟨toString n, List.mem_map_of_mem hn, (heq n).mpr rfl⟩
    · rw [queried_between hf, Node.eval, hcompared, hwant, hwant, h.holds, h.holds]
      simp [Op.relates]

def prioritised (n : Int) : RunRef × WorkflowExecution :=
  (⟨"n", "wf", "r"⟩,
    { type := "Poll", startTime := 0, taskQueue := "q", searchAttrs := [("Priority", .num n)] })

theorem compares_as_number_one :
    ComparesAsNumber (printing toString fun _ => "") (prioritised 1) "Priority" 1 :=
  (compares_as_number_iff toString (fun _ => "") _ _ "Priority" 1 (by decide +kernel)
    (by decide) (by simp)).mpr (.inr rfl)

/-- Ten is found below nine, and a million is not found at all. -/
theorem numbers_compare_as_texts :
    queried (printing toString fun _ => "") (prioritised 10) "Priority < 9" = some true ∧
    queried (printing toString fun _ => "") (prioritised 1000000) "Priority = 1000000" =
      some false := by
  decide +kernel

end DurableTasks.Visibility
