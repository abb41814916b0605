import DurableTasks.Visibility.Grammar
import Mathlib.Data.List.TakeWhile

/-!
Queries as texts: what the tokenizer makes of a text, and that a tree that is
printed is read back.
-/

namespace DurableTasks.Visibility

variable {rest cs : List Char} {ts : List Token} {c : Char} {p : Char → Bool}

/-! ## What a text is read as -/

/-- One turn of the loop of `vtokenize` takes `text` and makes the tokens `ts` of
it, if `rest` follows. -/
inductive Turn : (text : List Char) → (ts : List Token) → (rest : List Char) → Prop
  | space {c : Char} {rest : List Char} (hc : c = ' ' ∨ c = '\t' ∨ c = '\n') : Turn [c] [] rest
  | lparen {rest : List Char} : Turn ['('] [.lparen] rest
  | rparen {rest : List Char} : Turn [')'] [.rparen] rest
  | comma {rest : List Char} : Turn [','] [.comma] rest
  | eq {rest : List Char} : Turn ['='] [.op .eq] rest
  | ne {rest : List Char} : Turn ['!', '='] [.op .ne] rest
  | ge {rest : List Char} : Turn ['>', '='] [.op .ge] rest
  | gt {rest : List Char} (hr : rest.head? ≠ some '=') : Turn ['>'] [.op .gt] rest
  | le {rest : List Char} : Turn ['<', '='] [.op .le] rest
  | lt {rest : List Char} (hr : rest.head? ≠ some '=') : Turn ['<'] [.op .lt] rest
  | str {q : Char} {s rest : List Char} (hq : isQuote q) (hs : q ∉ s) :
      Turn (q :: s ++ [q]) [.str (String.ofList s)] rest
  | num {c : Char} {s rest : List Char} (hc : isDigit c ∨ c = '-' ∨ c = '+')
      (hs : ∀ d ∈ s, isDigit d || d == '.') (hr : ∀ d ∈ rest.head?, ¬(isDigit d || d == '.')) :
      Turn (c :: s) [.num (String.ofList (c :: s))] rest
  | word {c : Char} {s rest : List Char} (hc : isLetter c)
      (hs : ∀ d ∈ s, isLetter d || isDigit d) (hr : ∀ d ∈ rest.head?, ¬(isLetter d || isDigit d)) :
      Turn (c :: s) [wordToken (String.ofList (c :: s))] rest

inductive Lexes : List Char → List Token → Prop
  | nil : Lexes [] []
  | turn {text rest : List Char} {t ts : List Token} (h : Turn text t rest)
      (hrest : Lexes rest ts) : Lexes (text ++ rest) (t ++ ts)

theorem map_eq_ok {α β : Type} {x : Except String α} {f : α → β} {b : β} :
    x.map f = .ok b ↔ ∃ a, x = .ok a ∧ f a = b := by
  cases x with
  | error e => simp [Except.map]
  | ok a => simp [Except.map]

theorem Lexes.of_map {x : Except String (List Token)} {text : List Char} {t : Token}
    (ih : ∀ {ts}, x = .ok ts → Lexes rest ts) (h : x.map (t :: ·) = .ok ts)
    (ht : Turn text [t] rest) : Lexes (text ++ rest) ts := by
  obtain ⟨ts', hx, rfl⟩ := map_eq_ok.mp h
  exact .turn ht (ih hx)

theorem head?_dropWhile (p : Char → Bool) (cs : List Char) :
    ∀ d ∈ (cs.dropWhile p).head?, ¬p d := by
  intro d hd
  obtain ⟨rest, hrest⟩ := List.head?_eq_some_iff.mp hd
  have h := List.head_dropWhile_not p (l := cs) (by simp [hrest])
  simp only [hrest, List.head_cons] at h
  simp [h]

theorem head?_ne_of (h : ∀ cs', cs = c :: cs' → False) : cs.head? ≠ some c := by
  intro hcs
  obtain ⟨cs', hcs⟩ := List.head?_eq_some_iff.mp hcs
  exact h cs' hcs

theorem lexes_of_ok {i : Nat} (h : vtokenizeFrom i cs = .ok ts) : Lexes cs ts := by
  fun_induction vtokenizeFrom i cs generalizing ts with
  | case1 =>
    cases h
    exact .nil
  | case2 i c cs hc ih => exact .turn (.space hc) (ih h)
  | case3 i cs _ ih => exact .of_map ih h .lparen
  | case4 i cs _ _ ih => exact .of_map ih h .rparen
  | case5 i cs _ _ _ ih => exact .of_map ih h .comma
  | case6 i cs _ _ _ _ ih => exact .of_map ih h .eq
  | case7 i cs _ _ _ _ _ ih => exact .of_map ih h .ne
  | case9 i cs _ _ _ _ _ _ ih => exact .of_map ih h .ge
  | case10 i cs hne _ _ _ _ _ _ ih => exact .of_map ih h (.gt (head?_ne_of hne))
  | case11 i cs _ _ _ _ _ _ _ ih => exact .of_map ih h .le
  | case12 i cs hne _ _ _ _ _ _ _ ih => exact .of_map ih h (.lt (head?_ne_of hne))
  | case14 i c cs _ _ _ _ _ _ _ _ hq s q rest hdrop _ =>
    rename_i ih
    have hcs : s ++ q :: rest = cs := hdrop ▸ List.takeWhile_append_dropWhile
    obtain rfl : q = c := by
      have hc := head?_dropWhile (· != c) cs q (by simp [hdrop])
      simpa using hc
    have hs : q ∉ s := fun hmem => by
      have hne := List.mem_takeWhile_imp hmem
      simp at hne
    have hl := Lexes.of_map ih h (.str hq hs)
    rwa [List.append_assoc, List.singleton_append, List.cons_append, hcs] at hl
  | case15 i c cs _ _ _ _ _ _ _ _ _ hc s _ =>
    rename_i ih
    have hs : ∀ d ∈ s, (fun d => isDigit d || d == '.') d := fun d => List.mem_takeWhile_imp
    have hl := Lexes.of_map ih h (.num hc hs (head?_dropWhile _ cs))
    rwa [List.cons_append, List.takeWhile_append_dropWhile] at hl
  | case16 i c cs _ _ _ _ _ _ _ _ _ _ hc s _ =>
    rename_i ih
    have hs : ∀ d ∈ s, (fun d => isLetter d || isDigit d) d := fun d => List.mem_takeWhile_imp
    have hl := Lexes.of_map ih h (.word hc hs (head?_dropWhile _ cs))
    rwa [List.cons_append, List.takeWhile_append_dropWhile] at hl
  | _ => cases h

theorem takeWhile_stop {s : List Char} (hs : ∀ d ∈ s, p d) (hr : ∀ d ∈ rest.head?, ¬p d) :
    (s ++ rest).takeWhile p = s := by
  rw [List.takeWhile_append_of_pos hs]
  cases rest with
  | nil => simp
  | cons d rest => simpa using hr d rfl

theorem dropWhile_stop {s : List Char} (hs : ∀ d ∈ s, p d) (hr : ∀ d ∈ rest.head?, ¬p d) :
    (s ++ rest).dropWhile p = rest := by
  rw [List.dropWhile_append_of_pos hs]
  cases rest with
  | nil => simp
  | cons d rest => simpa using hr d rfl

theorem isDigit_iff : isDigit c ↔ 48 ≤ c.toNat ∧ c.toNat ≤ 57 := by
  simp [isDigit, Char.le_def, UInt32.le_iff_toNat_le]

theorem isLetter_iff : isLetter c ↔
    65 ≤ c.toNat ∧ c.toNat ≤ 90 ∨ 97 ≤ c.toNat ∧ c.toNat ≤ 122 ∨ c.toNat = 95 := by
  have h : c = '_' ↔ c.toNat = 95 := by
    constructor
    · rintro rfl
      rfl
    · exact fun h => Char.toNat_inj.mp h
  simp [isLetter, Char.le_def, UInt32.le_iff_toNat_le, h, or_assoc]

/-- The characters that are tokens by themselves, or begin one, or stand between
tokens. -/
def symbols : List Char := [' ', '\t', '\n', '(', ')', ',', '=', '!', '>', '<']

theorem ne_of_mem_symbols (hc : p c) (hp : symbols.all fun x => !p x) : ∀ x ∈ symbols, c ≠ x := by
  rintro x hx rfl
  have hnot := List.all_eq_true.mp hp c hx
  simp [hc] at hnot

theorem Turn.read {text : List Char} {t : List Token} (h : Turn text t rest) (i : Nat) :
    ∃ j, vtokenizeFrom i (text ++ rest) = (vtokenizeFrom j rest).map (t ++ ·) := by
  cases h with
  | space hc =>
    refine ⟨i + 1, ?_⟩
    rw [List.singleton_append, vtokenizeFrom.eq_def]
    simp only [if_pos hc, List.nil_append]
    cases vtokenizeFrom (i + 1) rest <;> rfl
  | lparen | rparen | comma | eq =>
    exact ⟨i + 1, by rw [List.singleton_append, vtokenizeFrom.eq_def]; rfl⟩
  | ne | ge | le => exact ⟨i + 2, by rw [List.cons_append, vtokenizeFrom.eq_def]; rfl⟩
  | gt hr | lt hr =>
    refine ⟨i + 1, ?_⟩
    rw [List.singleton_append, vtokenizeFrom.eq_def]
    simp only [Char.reduceEq, or_self, ↓reduceIte, List.singleton_append]
    split
    · exact absurd rfl hr
    · rfl
  | @str q s _ hq hs =>
    have hne := ne_of_mem_symbols hq (by decide)
    simp only [symbols, List.forall_mem_cons, List.not_mem_nil] at hne
    have hall : ∀ d ∈ s, d != q := fun d hd => by
      rw [bne_iff_ne]
      exact fun heq => hs (heq ▸ hd)
    have htake : (s ++ q :: rest).takeWhile (· != q) = s := takeWhile_stop hall (by simp)
    have hdrop : (s ++ q :: rest).dropWhile (· != q) = q :: rest :=
      dropWhile_stop hall (by simp)
    refine ⟨i + bytes s + 2, ?_⟩
    rw [List.append_assoc, List.cons_append, List.singleton_append, vtokenizeFrom.eq_def]
    simp only [hne, false_or, ↓reduceIte, hq, htake, List.singleton_append]
    split
    · rename_i heq
      rw [hdrop] at heq
      cases heq
    · rename_i heq
      rw [hdrop] at heq
      cases heq
      rfl
  | @num c s _ hc hs hr =>
    have hp : isDigit c || c == '-' || c == '+' := by simpa [or_assoc] using hc
    have hne := ne_of_mem_symbols (p := fun c => isDigit c || c == '-' || c == '+') hp (by decide)
    have hq : isQuote c = false := by
      rcases hc with hc | rfl | rfl
      · have hc := isDigit_iff.mp hc
        simp only [isQuote, Bool.or_eq_false_iff, beq_eq_false_iff_ne]
        omega
      · rfl
      · rfl
    simp only [symbols, List.forall_mem_cons, List.not_mem_nil] at hne
    rw [List.cons_append, vtokenizeFrom.eq_def]
    simp only [hne, false_or, ↓reduceIte, hq, Bool.false_eq_true, hc, takeWhile_stop hs hr,
      dropWhile_stop hs hr]
    exact ⟨_, rfl⟩
  | @word c s _ hc hs hr =>
    have hne := ne_of_mem_symbols hc (by decide)
    have hnat := isLetter_iff.mp hc
    have hq : isQuote c = false := by
      simp only [isQuote, Bool.or_eq_false_iff, beq_eq_false_iff_ne]
      omega
    have hd : ¬(isDigit c ∨ c = '-' ∨ c = '+') := by
      rw [isDigit_iff]
      rintro (h | rfl | rfl)
      · omega
      · simp at hnat
      · simp at hnat
    simp only [symbols, List.forall_mem_cons, List.not_mem_nil] at hne
    rw [List.cons_append, vtokenizeFrom.eq_def]
    simp only [hne, false_or, ↓reduceIte, hq, Bool.false_eq_true, hd, hc, takeWhile_stop hs hr,
      dropWhile_stop hs hr]
    exact ⟨_, rfl⟩

theorem Lexes.ok (h : Lexes cs ts) (i : Nat) : vtokenizeFrom i cs = .ok ts := by
  induction h generalizing i with
  | nil => rw [vtokenizeFrom]
  | turn h _ ih =>
    obtain ⟨j, hj⟩ := h.read i
    rw [hj, ih j]
    rfl

theorem vtokenizeFrom_ok {i : Nat} : vtokenizeFrom i cs = .ok ts ↔ Lexes cs ts :=
  ⟨lexes_of_ok, fun h => h.ok i⟩

/-! ## Quoted values -/

section Quoted

variable {text rest rest' cs pre post : List Char} {t ts ts₁ ts₂ : List Token} {s : String}
  {q : Char}

theorem wordToken_ne_str (w : String) : wordToken w ≠ .str s := by
  rw [wordToken]
  split <;> simp

/-- A turn makes one token at most, and a text only of what is quoted. -/
theorem Turn.tokens (h : Turn text t rest) :
    t = [] ∨ ∃ k, t = [k] ∧
      ∀ s, k = .str s → ∃ q, isQuote q ∧ q ∉ s.toList ∧ text = q :: s.toList ++ [q] := by
  cases h with
  | space => exact .inl rfl
  | @str q s _ hq hs =>
    refine .inr ⟨_, rfl, ?_⟩
    rintro _ ⟨⟩
    exact ⟨q, hq, by simpa using hs, by simp⟩
  | word hc hs hr => exact .inr ⟨_, rfl, fun s h => absurd h (wordToken_ne_str _)⟩
  | _ => exact .inr ⟨_, rfl, fun s h => by cases h⟩

theorem Turn.length_le (h : Turn text t rest) : t.length ≤ text.length := by
  cases h <;> simp

/-- A quote ends what comes before it. -/
theorem Turn.before_quote (h : Turn text t rest)
    (hr : ∀ d ∈ rest'.head?, d ∈ rest.head? ∨ isQuote d) : Turn text t rest' := by
  have hnat : ∀ {d}, isQuote d → d.toNat = 39 ∨ d.toNat = 34 := by simp [isQuote]
  have heq : rest.head? ≠ some '=' → rest'.head? ≠ some '=' := by
    intro hne h
    rcases hr '=' h with h | h
    · exact hne h
    · exact absurd h (by decide)
  have hstop : ∀ p : Char → Bool, (∀ d, isQuote d → ¬p d) → (∀ d ∈ rest.head?, ¬p d) →
      ∀ d ∈ rest'.head?, ¬p d := by
    intro p hp hne d hd
    exact (hr d hd).elim (hne d) (hp d)
  cases h with
  | space hc => exact .space hc
  | lparen => exact .lparen
  | rparen => exact .rparen
  | comma => exact .comma
  | eq => exact .eq
  | ne => exact .ne
  | ge => exact .ge
  | gt h => exact .gt (heq h)
  | le => exact .le
  | lt h => exact .lt (heq h)
  | str hq hs => exact .str hq hs
  | num hc hs h =>
    refine .num hc hs (hstop (fun d => isDigit d || d == '.') ?_ h)
    intro d hd
    have hd := hnat hd
    have hdot : d ≠ '.' := by
      rintro rfl
      simp at hd
    simp only [Bool.or_eq_true, isDigit_iff, beq_iff_eq, hdot, or_false]
    omega
  | word hc hs h =>
    refine .word hc hs (hstop (fun d => isLetter d || isDigit d) ?_ h)
    intro d hd
    have hd := hnat hd
    simp only [Bool.or_eq_true, isDigit_iff, isLetter_iff]
    omega

theorem Lexes.length_le (h : Lexes cs ts) : ts.length ≤ cs.length := by
  induction h with
  | nil => exact Nat.le_refl 0
  | turn h _ ih =>
    have hle := h.length_le
    simp only [List.length_append]
    omega

theorem Lexes.append_quote (hq : isQuote q) (hpre : Lexes pre ts₁) (h : Lexes (q :: cs) ts₂) :
    Lexes (pre ++ q :: cs) (ts₁ ++ ts₂) := by
  induction hpre with
  | nil => exact h
  | @turn text rest t ts ht _ ih =>
    rw [List.append_assoc, List.append_assoc]
    refine .turn (ht.before_quote fun d hd => ?_) ih
    cases rest with
    | nil =>
      obtain rfl : q = d := by simpa using hd
      exact .inr hq
    | cons c rest => exact .inl hd

theorem Lexes.quoted (hq : isQuote q) (hs : q ∉ s.toList) (h : Lexes post ts) :
    Lexes (q :: s.toList ++ q :: post) (.str s :: ts) := by
  have ht := Lexes.turn (.str hq hs) h
  simpa using ht

theorem Lexes.split (h : Lexes cs ts) (hts : ts = ts₁ ++ .str s :: ts₂) :
    ∃ pre q post, cs = pre ++ (q :: s.toList ++ q :: post) ∧ isQuote q ∧ q ∉ s.toList ∧
      Lexes pre ts₁ ∧ Lexes post ts₂ := by
  induction h generalizing ts₁ with
  | nil => simp at hts
  | @turn text rest t ts ht hrest ih =>
    -- what is before the value in the rest of the text, with this turn before it
    have hmore : ∀ ts₁', ts = ts₁' ++ .str s :: ts₂ →
        ∃ pre q post, text ++ rest = pre ++ (q :: s.toList ++ q :: post) ∧ isQuote q ∧
          q ∉ s.toList ∧ Lexes pre (t ++ ts₁') ∧ Lexes post ts₂ := by
      intro ts₁' heq
      obtain ⟨pre, q, post, rfl, hq, hs, hpre, hpost⟩ := ih heq
      refine ⟨text ++ pre, q, post, by simp, hq, hs, .turn (ht.before_quote ?_) hpre, hpost⟩
      intro d hd
      obtain ⟨pre', hpre'⟩ := List.head?_eq_some_iff.mp hd
      exact .inl (by simp [hpre'])
    rcases ht.tokens with rfl | ⟨k, rfl, hk⟩
    · exact hmore ts₁ hts
    · cases ts₁ with
      | nil =>
        obtain ⟨rfl, rfl⟩ := List.cons.inj hts
        obtain ⟨q, hq, hs, rfl⟩ := hk s rfl
        exact ⟨[], q, rest, by simp, hq, hs, .nil, hrest⟩
      | cons k' ts₁' =>
        obtain ⟨rfl, heq⟩ := List.cons.inj hts
        exact hmore ts₁' heq

theorem lexes_str_iff : Lexes cs (ts₁ ++ .str s :: ts₂) ↔
    ∃ pre q post, cs = pre ++ (q :: s.toList ++ q :: post) ∧ isQuote q ∧ q ∉ s.toList ∧
      Lexes pre ts₁ ∧ Lexes post ts₂ := by
  constructor
  · intro h
    exact h.split rfl
  · rintro ⟨pre, q, post, rfl, hq, hs, hpre, hpost⟩
    exact hpre.append_quote hq (.quoted hq hs hpost)

end Quoted

/-! ## Printing -/

/-- A quote that is not in the value, unless both are. -/
def quoteOf (v : String) : Char :=
  if Char.ofNat 39 ∈ v.toList then Char.ofNat 34 else Char.ofNat 39

def quoted (v : String) : List Char := quoteOf v :: v.toList ++ [quoteOf v]

def spaced (w : String) : List Char := w.toList ++ [' ']

def listed : List String → List Char
  | [] => []
  | v :: vs => quoted v ++ vs.flatMap fun v => ',' :: ' ' :: quoted v

/-- The text of a query, with parentheses around every part of it and quotes
around every value. -/
def Node.print : Node → List Char
  | .and a b => '(' :: a.print ++ ' ' :: spaced "AND" ++ b.print ++ [')']
  | .or a b => '(' :: a.print ++ ' ' :: spaced "OR" ++ b.print ++ [')']
  | .not a => '(' :: spaced "NOT" ++ a.print ++ [')']
  | .cmp field o v => '(' :: spaced field ++ spaced o.text ++ quoted v ++ [')']
  | .isIn field vs => '(' :: spaced field ++ spaced "IN" ++ '(' :: listed vs ++ [')', ')']
  | .notIn field vs =>
    '(' :: spaced field ++ spaced "NOT" ++ spaced "IN" ++ '(' :: listed vs ++ [')', ')']
  | .between field low high =>
    '(' :: spaced field ++ spaced "BETWEEN" ++ quoted low ++ ' ' :: spaced "AND" ++
      quoted high ++ [')']

def isWord (w : String) : Bool :=
  match w.toList with
  | [] => false
  | c :: cs => isLetter c && cs.all fun d => isLetter d || isDigit d

def isField (w : String) : Bool :=
  isWord w && [Keyword.and, .or, .not, .isIn, .between].all fun k => k.text ≠ w.toUpper

def isQuotable (v : String) : Bool :=
  !(v.toList.contains (Char.ofNat 39) && v.toList.contains (Char.ofNat 34))

def Node.isPrintable : Node → Bool
  | .and a b | .or a b => a.isPrintable && b.isPrintable
  | .not a => a.isPrintable
  | .cmp field _ v => isField field && isQuotable v
  | .isIn field vs | .notIn field vs => isField field && vs ≠ [] && vs.all isQuotable
  | .between field low high => isField field && isQuotable low && isQuotable high

def Node.atom : Node → Atom
  | .and a b => .paren (.mk (.mk (.atom a.atom) (.and (.atom b.atom) .nil)) .nil)
  | .or a b => .paren (.mk (.mk (.atom a.atom) .nil) (.or (.mk (.atom b.atom) .nil) .nil))
  | .not a => .paren (.mk (.mk (.not (.atom a.atom)) .nil) .nil)
  | .cmp field o v => .paren (.mk (.mk (.atom (.comparison field (.cmp o (.str v)))) .nil) .nil)
  | .isIn field vs =>
    .paren (.mk (.mk (.atom (.comparison field
      (.isIn ⟨.str (vs.headD ""), vs.tail.map .str⟩))) .nil) .nil)
  | .notIn field vs =>
    .paren (.mk (.mk (.atom (.comparison field
      (.notIn ⟨.str (vs.headD ""), vs.tail.map .str⟩))) .nil) .nil)
  | .between field low high =>
    .paren (.mk (.mk (.atom (.comparison field (.between (.str low) (.str high)))) .nil) .nil)

theorem texts_str (vs : List String) (h : vs ≠ []) :
    (Values.mk (.str (vs.headD "")) (vs.tail.map .str)).texts = vs := by
  cases vs with
  | nil => exact absurd rfl h
  | cons v vs => simp [Values.texts, Value.text, Function.comp_def]

theorem Node.tree_atom {n : Node} (h : n.isPrintable) : n.atom.tree = n := by
  induction n with
  | and a b iha ihb =>
    obtain ⟨ha, hb⟩ := Bool.and_eq_true_iff.mp h
    simp [Node.atom, Atom.tree, Expr.tree, OrMore.tree, AndExpr.tree, AndMore.tree,
      NotExpr.tree, iha ha, ihb hb]
  | or a b iha ihb =>
    obtain ⟨ha, hb⟩ := Bool.and_eq_true_iff.mp h
    simp [Node.atom, Atom.tree, Expr.tree, OrMore.tree, AndExpr.tree, AndMore.tree,
      NotExpr.tree, iha ha, ihb hb]
  | not a ih =>
    simp [Node.atom, Atom.tree, Expr.tree, OrMore.tree, AndExpr.tree, AndMore.tree,
      NotExpr.tree, ih h]
  | cmp field o v => rfl
  | isIn field vs =>
    have hvs : vs ≠ [] := by simp_all [Node.isPrintable]
    exact congrArg (Node.isIn field) (texts_str vs hvs)
  | notIn field vs =>
    have hvs : vs ≠ [] := by simp_all [Node.isPrintable]
    exact congrArg (Node.notIn field) (texts_str vs hvs)
  | between field low high => rfl

/-- The text is read as these tokens, whatever comes after it. -/
def Chunk (cs : List Char) (ts : List Token) : Prop :=
  ∀ rest ts', Lexes rest ts' → Lexes (cs ++ rest) (ts ++ ts')

namespace Chunk

variable {cs cs' : List Char} {ts ts' : List Token}

theorem append (h : Chunk cs ts) (h' : Chunk cs' ts') : Chunk (cs ++ cs') (ts ++ ts') := by
  intro rest ts'' hrest
  rw [List.append_assoc, List.append_assoc]
  exact h _ _ (h' _ _ hrest)

theorem lparen : Chunk ['('] [.lparen] := fun _ _ h => .turn .lparen h

theorem rparen : Chunk [')'] [.rparen] := fun _ _ h => .turn .rparen h

theorem space : Chunk [' '] [] := fun _ _ h => .turn (.space (.inl rfl)) h

theorem comma : Chunk [',', ' '] [.comma] := append (fun _ _ h => .turn .comma h) space

theorem word {w : String} (hw : isWord w) : Chunk (spaced w) [wordToken w] := by
  intro rest ts h
  rw [isWord] at hw
  cases hcs : w.toList with
  | nil => simp [hcs] at hw
  | cons c cs =>
    simp only [hcs, Bool.and_eq_true, List.all_eq_true] at hw
    have hturn : Turn w.toList [wordToken w] (' ' :: rest) := by
      have ht : Turn (c :: cs) _ (' ' :: rest) := .word hw.1 hw.2 (by simp [isLetter, isDigit])
      rwa [← hcs, String.ofList_toList] at ht
    rw [spaced, List.append_assoc]
    exact .turn hturn (space _ _ h)

theorem field {f : String} (hf : isField f) : Chunk (spaced f) [.ident f] := by
  obtain ⟨hw, hk⟩ := Bool.and_eq_true_iff.mp hf
  have hident : wordToken f = .ident f := by
    rw [wordToken, List.find?_eq_none.mpr]
    intro k hmem
    simpa using List.all_eq_true.mp hk k hmem
  exact hident ▸ word hw

theorem keyword (k : Keyword) : Chunk (spaced k.text) [.kw k] := by
  have hk : isWord k.text ∧ wordToken k.text = .kw k := by
    cases k <;> decide +kernel
  exact hk.2 ▸ word hk.1

theorem op (o : Op) : Chunk (spaced o.text) [.op o] := by
  intro rest ts h
  have hturn : Turn o.text.toList [.op o] (' ' :: rest) := by
    cases o with
    | eq => exact .eq
    | ne => exact .ne
    | gt => exact .gt (by simp)
    | lt => exact .lt (by simp)
    | ge => exact .ge
    | le => exact .le
  rw [spaced, List.append_assoc]
  exact .turn hturn (space _ _ h)

theorem value {v : String} (hv : isQuotable v) : Chunk (quoted v) [.str v] := by
  intro rest ts h
  have hq : isQuote (quoteOf v) ∧ quoteOf v ∉ v.toList := by
    rw [quoteOf]
    split_ifs with hmem
    · exact ⟨by decide, by simp_all [isQuotable]⟩
    · exact ⟨by decide, hmem⟩
  rw [quoted, List.append_assoc]
  exact .quoted hq.1 hq.2 h

theorem values {v : String} {vs : List String} (hv : isQuotable v) (hvs : ∀ v ∈ vs, isQuotable v) :
    Chunk (listed (v :: vs)) (Values.mk (.str v) (vs.map .str)).tokens := by
  refine append (value hv) ?_
  induction vs with
  | nil => exact fun _ _ h => h
  | cons w vs ih =>
    have hw := value (hvs w List.mem_cons_self)
    exact append (append comma hw) (ih fun v hv => hvs v (List.mem_cons_of_mem w hv))

end Chunk

theorem Chunk.paren (h : Chunk cs ts) : Chunk ('(' :: cs ++ [')']) (.lparen :: ts ++ [.rparen]) :=
  (Chunk.lparen.append h).append .rparen

theorem Chunk.valueList {vs : List String} (hvs : vs ≠ []) (hq : vs.all isQuotable) :
    Chunk ('(' :: listed vs ++ [')'])
      (.lparen :: (Values.mk (.str (vs.headD "")) (vs.tail.map .str)).tokens ++ [.rparen]) := by
  cases vs with
  | nil => exact absurd rfl hvs
  | cons v vs =>
    obtain ⟨hv, hvs⟩ := List.forall_mem_cons.mp (List.all_eq_true.mp hq)
    exact (Chunk.values hv hvs).paren

section Chunks

attribute [local simp] Node.print Node.atom Atom.tokens Expr.tokens OrMore.tokens AndExpr.tokens
  AndMore.tokens NotExpr.tokens Test.tokens Value.token Keyword.text

theorem Node.chunk {n : Node} (h : n.isPrintable) : Chunk n.print n.atom.tokens := by
  induction n with
  | and a b iha ihb =>
    obtain ⟨ha, hb⟩ := Bool.and_eq_true_iff.mp h
    have hc := (iha ha).append (Chunk.space.append ((Chunk.keyword .and).append (ihb hb)))
    simpa using hc.paren
  | or a b iha ihb =>
    obtain ⟨ha, hb⟩ := Bool.and_eq_true_iff.mp h
    have hc := (iha ha).append (Chunk.space.append ((Chunk.keyword .or).append (ihb hb)))
    simpa using hc.paren
  | not a ih =>
    have hc := (Chunk.keyword .not).append (ih h)
    simpa using hc.paren
  | cmp field o v =>
    obtain ⟨hf, hv⟩ := Bool.and_eq_true_iff.mp h
    have hc := (Chunk.field hf).append ((Chunk.op o).append (Chunk.value hv))
    simpa using hc.paren
  | isIn field vs =>
    simp only [Node.isPrintable, Bool.and_eq_true, decide_eq_true_eq] at h
    have hc := (Chunk.field h.1.1).append
      ((Chunk.keyword .isIn).append (Chunk.valueList h.1.2 h.2))
    simpa using hc.paren
  | notIn field vs =>
    simp only [Node.isPrintable, Bool.and_eq_true, decide_eq_true_eq] at h
    have hc := (Chunk.field h.1.1).append ((Chunk.keyword .not).append
      ((Chunk.keyword .isIn).append (Chunk.valueList h.1.2 h.2)))
    simpa using hc.paren
  | between field low high =>
    simp only [Node.isPrintable, Bool.and_eq_true] at h
    have hc := (Chunk.field h.1.1).append ((Chunk.keyword .between).append
      ((Chunk.value h.1.2).append (Chunk.space.append ((Chunk.keyword .and).append
        (Chunk.value h.2)))))
    simpa using hc.paren

theorem Node.print_eq (n : Node) : ∃ cs, n.print = '(' :: cs ++ [')'] := by
  cases n with
  | isIn field vs => exact ⟨spaced field ++ spaced "IN" ++ '(' :: listed vs ++ [')'], by simp⟩
  | notIn field vs =>
    exact ⟨spaced field ++ spaced "NOT" ++ spaced "IN" ++ '(' :: listed vs ++ [')'], by simp⟩
  | _ => exact ⟨_, rfl⟩

end Chunks

theorem dropWhile_of_head? (h : ∀ c ∈ cs.head?, p c = false) : cs.dropWhile p = cs := by
  cases cs with
  | nil => rfl
  | cons c cs => simp [h c rfl]

/-- There is nothing to trim where no blank is at either end. -/
theorem trimSpace_eq (hfirst : ∀ c ∈ cs.head?, isSpace c = false)
    (hlast : ∀ c ∈ cs.getLast?, isSpace c = false) : trimSpace (String.ofList cs) = cs := by
  rw [trimSpace, String.toList_ofList, dropWhile_of_head? hfirst,
    dropWhile_of_head? (by simpa using hlast), List.reverse_reverse]

/-- A text that is read as the tokens of a derivation is parsed as its tree. -/
theorem Lexes.parse {d : Expr} (h : Lexes cs d.tokens) (hne : cs ≠ [])
    (hfirst : ∀ c ∈ cs.head?, isSpace c = false) (hlast : ∀ c ∈ cs.getLast?, isSpace c = false) :
    parseVisibilityQuery (String.ofList cs) = .ok (some d.tree) := by
  have hparse : parseTokens d.tokens = .ok d.tree := parseTokens_iff.mpr ⟨d, rfl, rfl⟩
  rw [parseVisibilityQuery_eq, trimSpace_eq hfirst hlast, if_neg hne, h.ok 0]
  change some <$> parseTokens d.tokens = _
  rw [hparse]
  rfl

theorem parse_print {n : Node} (h : n.isPrintable) :
    parseVisibilityQuery (String.ofList n.print) = .ok (some n) := by
  have hlex : Lexes n.print (Expr.mk (.mk (.atom n.atom) .nil) .nil).tokens := by
    have hl := n.chunk h [] [] .nil
    simpa [Expr.tokens, OrMore.tokens, AndExpr.tokens, AndMore.tokens, NotExpr.tokens] using hl
  obtain ⟨cs, hcs⟩ := n.print_eq
  have hopen : isSpace '(' = false := rfl
  have hclose : isSpace ')' = false := rfl
  have hlast : ∀ c ∈ n.print.getLast?, isSpace c = false := by
    rw [hcs, List.getLast?_concat]
    rintro _ ⟨⟩
    exact hclose
  have htree : (Expr.mk (.mk (.atom n.atom) .nil) .nil).tree = n := Node.tree_atom h
  rw [hlex.parse (by simp [hcs]) (by simp [hcs, hopen]) hlast, htree]

/-- A query that is printed is read as the same tree. Every text is read to its
end or refused, and a value is read as a text where, and only where, it stands in
quotes. -/
theorem queries_round_trip (n : Node) (hn : n.isPrintable) (q s : String) (ts₁ ts₂ : List Token) :
    parseVisibilityQuery (String.ofList n.print) = .ok (some n) ∧
    ((∃ ts, vtokenize q = .ok ts ∧ ts.length ≤ q.length) ∨ ∃ e, vtokenize q = .error e) ∧
    (vtokenize q = .ok (ts₁ ++ .str s :: ts₂) ↔
      ∃ pre c post, q.toList = pre ++ (c :: s.toList ++ c :: post) ∧ isQuote c ∧ c ∉ s.toList ∧
        vtokenize (String.ofList pre) = .ok ts₁ ∧ vtokenize (String.ofList post) = .ok ts₂) := by
  refine ⟨parse_print hn, ?_, ?_⟩
  · cases h : vtokenize q with
    | error e => exact .inr ⟨e, rfl⟩
    | ok ts => exact .inl ⟨ts, rfl, (vtokenizeFrom_ok.mp h).length_le⟩
  · simp only [vtokenize, vtokenizeFrom_ok, String.toList_ofList]
    exact lexes_str_iff

theorem queries_round_trip_both :
    parseVisibilityQuery "((WorkflowId = 'AND') AND (NOT (Region IN (\"it's\", '>='))))" =
      .ok (some (.and (.cmp "WorkflowId" .eq "AND") (.not (.isIn "Region" ["it's", ">="])))) := by
  have h := queries_round_trip
    (.and (.cmp "WorkflowId" .eq "AND") (.not (.isIn "Region" ["it's", ">="])))
    (by decide +kernel) "" "" [] []
  have hprint : "((WorkflowId = 'AND') AND (NOT (Region IN (\"it's\", '>='))))" = String.ofList
      (Node.print (.and (.cmp "WorkflowId" .eq "AND") (.not (.isIn "Region" ["it's", ">="])))) := by
    decide +kernel
  rw [hprint]
  exact h.1

end DurableTasks.Visibility
