import DurableTasks.Visibility.Query

/-!
The grammar of visibility queries, as a type of derivations, and that the parser
follows it: it returns a tree if the tokens have a derivation with this tree, and
an error if they have none.
-/

namespace DurableTasks.Visibility

/-! ## Derivations -/

inductive Value where
  | str (s : String)
  | num (s : String)
  | ident (s : String)

def Value.token : Value → Token
  | str s => .str s
  | num s => .num s
  | ident s => .ident s

def Value.text : Value → String
  | str s | num s | ident s => s

structure Values where
  first : Value
  more : List Value

def Values.tokens (vs : Values) : List Token :=
  vs.first.token :: vs.more.flatMap fun v => [.comma, v.token]

def Values.texts (vs : Values) : List String := vs.first.text :: vs.more.map Value.text

inductive Test where
  | cmp (o : Op) (v : Value)
  | isIn (vs : Values)
  | notIn (vs : Values)
  | between (low high : Value)

def Test.tokens : Test → List Token
  | cmp o v => [.op o, v.token]
  | isIn vs => .kw .isIn :: .lparen :: vs.tokens ++ [.rparen]
  | notIn vs => .kw .not :: .kw .isIn :: .lparen :: vs.tokens ++ [.rparen]
  | between low high => [.kw .between, low.token, .kw .and, high.token]

def Test.tree (field : String) : Test → Node
  | cmp o v => .cmp field o v.text
  | isIn vs => .isIn field vs.texts
  | notIn vs => .notIn field vs.texts
  | between low high => .between field low.text high.text

mutual

inductive Expr where
  | mk (first : AndExpr) (more : OrMore)

inductive OrMore where
  | nil
  | or (b : AndExpr) (more : OrMore)

inductive AndExpr where
  | mk (first : NotExpr) (more : AndMore)

inductive AndMore where
  | nil
  | and (b : NotExpr) (more : AndMore)

inductive NotExpr where
  | not (a : NotExpr)
  | atom (a : Atom)

inductive Atom where
  | paren (e : Expr)
  | comparison (field : String) (t : Test)

end

mutual

def Expr.tokens : Expr → List Token
  | .mk first more => first.tokens ++ more.tokens

def OrMore.tokens : OrMore → List Token
  | .nil => []
  | .or b more => .kw .or :: b.tokens ++ more.tokens

def AndExpr.tokens : AndExpr → List Token
  | .mk first more => first.tokens ++ more.tokens

def AndMore.tokens : AndMore → List Token
  | .nil => []
  | .and b more => .kw .and :: b.tokens ++ more.tokens

def NotExpr.tokens : NotExpr → List Token
  | .not a => .kw .not :: a.tokens
  | .atom a => a.tokens

def Atom.tokens : Atom → List Token
  | .paren e => .lparen :: e.tokens ++ [.rparen]
  | .comparison field t => .ident field :: t.tokens

end

mutual

/-- The tree of a derivation. `AND` and `OR` group to the left. -/
def Expr.tree : Expr → Node
  | .mk first more => more.tree first.tree

def OrMore.tree (a : Node) : OrMore → Node
  | .nil => a
  | .or b more => more.tree (.or a b.tree)

def AndExpr.tree : AndExpr → Node
  | .mk first more => more.tree first.tree

def AndMore.tree (a : Node) : AndMore → Node
  | .nil => a
  | .and b more => more.tree (.and a b.tree)

def NotExpr.tree : NotExpr → Node
  | .not a => .not a.tree
  | .atom a => a.tree

def Atom.tree : Atom → Node
  | .paren e => e.tree
  | .comparison field t => t.tree field

end

/-! ## Steps of the parser -/

section Steps

variable {α β D E : Type} {p q : List Token → Prop} {a b : α} {rest rest' : List Token}

def Gives (x : Except String (α × { rest : List Token // p rest })) (a : α)
    (rest : List Token) : Prop :=
  ∃ h, x = .ok (a, ⟨rest, h⟩)

theorem Gives.unique {x : Except String (α × { rest : List Token // p rest })}
    (h : Gives x a rest) (h' : Gives x b rest') : a = b ∧ rest = rest' := by
  obtain ⟨hp, h⟩ := h
  obtain ⟨hp', h'⟩ := h'
  have heq := Except.ok.inj (h.symm.trans h')
  simp only [Prod.mk.injEq, Subtype.mk.injEq] at heq
  exact heq

theorem gives_ok {h : p rest} :
    Gives (.ok (a, ⟨rest, h⟩)) b rest' ↔ a = b ∧ rest = rest' := by
  constructor
  · rintro ⟨_, heq⟩
    simpa using heq
  · rintro ⟨rfl, rfl⟩
    exact ⟨h, rfl⟩

theorem not_gives_error {e : String} {b : α} : ¬Gives (p := p) (.error e) b rest := by
  rintro ⟨_, heq⟩
  cases heq

theorem gives_bind {x : Except String (α × { rest : List Token // p rest })}
    {f : α × { rest : List Token // p rest } → Except String (β × { rest : List Token // q rest })}
    {b : β} {g : α → List Token → Prop} (hf : ∀ a mid h, Gives (f (a, ⟨mid, h⟩)) b rest ↔ g a mid) :
    Gives (x >>= f) b rest ↔ ∃ a mid, Gives x a mid ∧ g a mid := by
  constructor
  · intro h
    cases x with
    | error e => exact absurd h not_gives_error
    | ok z => exact ⟨z.1, z.2.1, ⟨z.2.2, rfl⟩, (hf _ _ _).mp h⟩
  · rintro ⟨a, mid, ⟨hmid, rfl⟩, h⟩
    exact (hf a mid hmid).mpr h

theorem gives_map (g : α → β) {x : Except String (α × { rest : List Token // p rest })}
    {f : α × { rest : List Token // p rest } → Except String (β × { rest : List Token // q rest })}
    {b : β} (hf : ∀ a mid h, ∃ h', f (a, ⟨mid, h⟩) = .ok (g a, ⟨mid, h'⟩)) :
    Gives (x >>= f) b rest ↔ ∃ a, Gives x a rest ∧ g a = b := by
  rw [gives_bind (g := fun a mid => g a = b ∧ mid = rest)]
  · simp
  · intro a mid h
    obtain ⟨h', heq⟩ := hf a mid h
    rw [heq, gives_ok]

/-- A step of the parser returns the trees of the derivations that begin its
tokens, and at most one derivation does. -/
structure Exact (x : Except String (α × { rest : List Token // p rest }))
  (reads : D → List Token → Prop) (tree : D → α) : Prop where
  gives : ∀ {n rest}, Gives x n rest ↔ ∃ d, reads d rest ∧ tree d = n
  unique : ∀ {d d' rest rest'}, reads d rest → reads d' rest' → d = d'

theorem Exact.rest_unique {x : Except String (α × { rest : List Token // p rest })}
    {reads : D → List Token → Prop} {tree : D → α} (h : Exact x reads tree) {d d' : D}
    (hd : reads d rest) (hd' : reads d' rest') : rest = rest' :=
  ((h.gives.mpr ⟨d, hd, rfl⟩).unique (h.gives.mpr ⟨d', hd', rfl⟩)).2

section Derivations

variable {C : Type} {x : Except String (α × { rest : List Token // p rest })}
  {z : Except String (β × { rest : List Token // q rest })} {R : D → List Token → Prop}
  {reads : C → List Token → Prop} {t : D → α} {tree : C → β}

theorem Exact.map (mk : D → C) (u : α → β) (f : List Token → List Token) (hx : Exact x R t)
    (hz : ∀ {n rest}, Gives z n rest ↔ ∃ a, Gives x a (f rest) ∧ u a = n)
    (hmk : ∀ {c rest}, reads c rest → ∃ d, c = mk d)
    (hreads : ∀ {d rest}, reads (mk d) rest ↔ R d (f rest)) (htree : ∀ d, tree (mk d) = u (t d)) :
    Exact z reads tree := by
  refine ⟨fun {n rest} => ?_, fun {c c' rest rest'} hc hc' => ?_⟩
  · grind [hx.gives]
  · obtain ⟨d, rfl⟩ := hmk hc
    obtain ⟨d', rfl⟩ := hmk hc'
    rw [hx.unique (hreads.mp hc) (hreads.mp hc')]

theorem Exact.seq {P : List Token → List Token → Prop}
    {y : α → (mid : List Token) → Except String (β × { rest : List Token // P mid rest })}
    {S : List Token → E → List Token → Prop} (mk : D → E → C) (u : α → E → β) (hx : Exact x R t)
    (hy : ∀ {d mid}, R d mid → Exact (y (t d) mid) (S mid) (u (t d)))
    (hz : ∀ {n rest}, Gives z n rest ↔ ∃ a mid, Gives x a mid ∧ Gives (y a mid) n rest)
    (hmk : ∀ {c rest}, reads c rest → ∃ d e, c = mk d e)
    (hreads : ∀ {d e rest}, reads (mk d e) rest ↔ ∃ mid, R d mid ∧ S mid e rest)
    (htree : ∀ d e, tree (mk d e) = u (t d) e) : Exact z reads tree := by
  refine ⟨fun {n rest} => ?_, fun {c c' rest rest'} hc hc' => ?_⟩
  · rw [hz]
    constructor
    · rintro ⟨a, mid, ha, hn⟩
      obtain ⟨d, hd, rfl⟩ := hx.gives.mp ha
      obtain ⟨e, he, rfl⟩ := (hy hd).gives.mp hn
      exact ⟨mk d e, hreads.mpr ⟨mid, hd, he⟩, htree d e⟩
    · rintro ⟨c, hc, rfl⟩
      obtain ⟨d, e, rfl⟩ := hmk hc
      obtain ⟨mid, hd, he⟩ := hreads.mp hc
      exact ⟨t d, mid, hx.gives.mpr ⟨d, hd, rfl⟩, (hy hd).gives.mpr ⟨e, he, (htree d e).symm⟩⟩
  · obtain ⟨d, e, rfl⟩ := hmk hc
    obtain ⟨d', e', rfl⟩ := hmk hc'
    obtain ⟨mid, hd, he⟩ := hreads.mp hc
    obtain ⟨mid', hd', he'⟩ := hreads.mp hc'
    obtain rfl := hx.unique hd hd'
    obtain rfl := hx.rest_unique hd hd'
    rw [(hy hd).unique he he']

theorem Exact.nil {b : β} (c : C) (ts : List Token)
    (hz : ∀ {n rest}, Gives z n rest ↔ b = n ∧ ts = rest)
    (hmk : ∀ {c' rest}, reads c' rest → c' = c) (hreads : ∀ {rest}, reads c rest ↔ ts = rest)
    (htree : tree c = b) : Exact z reads tree := by
  refine ⟨fun {n rest} => ?_, fun hc hc' => (hmk hc).trans (hmk hc').symm⟩
  rw [hz]
  constructor
  · rintro ⟨rfl, h⟩
    exact ⟨c, hreads.mpr h, htree⟩
  · rintro ⟨c', hc, rfl⟩
    obtain rfl := hmk hc
    exact ⟨htree.symm, hreads.mp hc⟩

end Derivations

end Steps

/-- Induction on the number of tokens. -/
theorem of_shorter {P : List Token → Prop}
    (step : ∀ ts, (∀ ts', ts'.length < ts.length → P ts') → P ts) (ts : List Token) : P ts :=
  (measure List.length).wf.induction ts step

variable {ts rest : List Token} {n a : Node} {s field : String} {vs : List String}

/-! ### Comparisons -/

theorem expectSym_ok {t : Token} {r : Fewer ts} : expectSym t ts = .ok r ↔ ts = t :: r.1 := by
  cases ts with
  | nil => simp [expectSym, throw, throwThe, MonadExceptOf.throw]
  | cons t' ts =>
    rw [expectSym]
    split_ifs with h
    · subst h
      simp [Subtype.ext_iff]
    · constructor
      · intro heq
        cases heq
      · intro heq
        exact absurd (List.cons.inj heq).1 h

theorem gives_parseValue :
    Gives (parseValue ts) s rest ↔ ∃ v : Value, ts = v.token :: rest ∧ v.text = s := by
  constructor
  · intro h
    cases ts with
    | nil => exact absurd h not_gives_error
    | cons t ts =>
      cases t with
      | ident _ =>
        obtain ⟨rfl, rfl⟩ := gives_ok.mp h
        exact ⟨.ident _, rfl, rfl⟩
      | str _ =>
        obtain ⟨rfl, rfl⟩ := gives_ok.mp h
        exact ⟨.str _, rfl, rfl⟩
      | num _ =>
        obtain ⟨rfl, rfl⟩ := gives_ok.mp h
        exact ⟨.num _, rfl, rfl⟩
      | _ => exact absurd h not_gives_error
  · rintro ⟨v, rfl, rfl⟩
    cases v <;> exact gives_ok.mpr ⟨rfl, rfl⟩

theorem gives_expectSym {α : Type} {p : List Token → Prop} {t : Token} {a b : α}
    {hr : ∀ r : Fewer ts, p r.1} :
    Gives (expectSym t ts >>= fun r => pure (a, ⟨r.1, hr r⟩)) b rest ↔ ts = t :: rest ∧ a = b := by
  constructor
  · intro h
    cases hx : expectSym t ts with
    | error e =>
      rw [hx] at h
      exact absurd h not_gives_error
    | ok r =>
      rw [hx] at h
      obtain ⟨rfl, rfl⟩ := gives_ok.mp h
      exact ⟨expectSym_ok.mp hx, rfl⟩
  · rintro ⟨rfl, rfl⟩
    have hx : expectSym t (t :: rest) = .ok ⟨rest, by simp⟩ := expectSym_ok.mpr rfl
    rw [hx]
    exact gives_ok.mpr ⟨rfl, rfl⟩

theorem gives_valueLoop_step : Gives (valueLoop ts) vs rest ↔
    ∃ s mid, Gives (parseValue ts) s mid ∧
      ((∃ mid' vs', mid = .comma :: mid' ∧ Gives (valueLoop mid') vs' rest ∧ s :: vs' = vs) ∨
        mid = .rparen :: rest ∧ [s] = vs) := by
  rw [valueLoop]
  refine gives_bind fun s mid h => ?_
  dsimp only
  split
  · refine (gives_map (s :: ·) fun b r h => by exact ⟨_, rfl⟩).trans ?_
    simp
  · rename_i hne
    refine gives_expectSym.trans ?_
    constructor
    · exact .inr
    · rintro (⟨mid', vs', rfl, -⟩ | h)
      · exact (hne mid' h rfl HEq.rfl).elim
      · exact h

theorem gives_valueLoop : Gives (valueLoop ts) vs rest ↔
    ∃ d : Values, ts = d.tokens ++ .rparen :: rest ∧ d.texts = vs := by
  induction ts using of_shorter generalizing vs with
  | step ts ih =>
    rw [gives_valueLoop_step]
    constructor
    · rintro ⟨s, mid, hv, ⟨mid', vs', rfl, hloop, rfl⟩ | ⟨rfl, rfl⟩⟩
      · obtain ⟨v, rfl, rfl⟩ := gives_parseValue.mp hv
        obtain ⟨d, rfl, rfl⟩ := (ih mid' (by grind)).mp hloop
        exact ⟨⟨v, d.first :: d.more⟩, rfl, rfl⟩
      · obtain ⟨v, rfl, rfl⟩ := gives_parseValue.mp hv
        exact ⟨⟨v, []⟩, rfl, rfl⟩
    · rintro ⟨⟨v, more⟩, rfl, rfl⟩
      refine ⟨v.text, _, gives_parseValue.mpr ⟨v, rfl, rfl⟩, ?_⟩
      cases more with
      | nil => exact .inr ⟨rfl, rfl⟩
      | cons v' more =>
        refine .inl ⟨_, (Values.mk v' more).texts, rfl, ?_, rfl⟩
        refine (ih ((Values.mk v' more).tokens ++ .rparen :: rest) ?_).mpr ⟨_, rfl, rfl⟩
        change _ < (v.token :: .comma :: ((Values.mk v' more).tokens ++ _)).length
        rw [List.length_cons, List.length_cons]
        omega

theorem gives_parseValueList : Gives (parseValueList ts) vs rest ↔
    ∃ d : Values, ts = .lparen :: d.tokens ++ .rparen :: rest ∧ d.texts = vs := by
  have hstep : ∀ ts', ts = .lparen :: ts' →
      (Gives (parseValueList ts) vs rest ↔ Gives (valueLoop ts') vs rest) := by
    rintro ts' rfl
    have hx : expectSym .lparen (.lparen :: ts') = .ok ⟨ts', by simp⟩ := expectSym_ok.mpr rfl
    rw [parseValueList, hx]
    exact (gives_map id fun b r h => by exact ⟨_, rfl⟩).trans (by simp)
  constructor
  · intro h
    cases hx : expectSym .lparen ts with
    | error e =>
      rw [parseValueList, hx] at h
      exact absurd h not_gives_error
    | ok r =>
      have hts := expectSym_ok.mp hx
      obtain ⟨d, hd, rfl⟩ := gives_valueLoop.mp ((hstep r.1 hts).mp h)
      exact ⟨d, by rw [hts, hd]; rfl, rfl⟩
  · rintro ⟨d, rfl, rfl⟩
    exact (hstep _ rfl).mpr (gives_valueLoop.mpr ⟨d, rfl, rfl⟩)

theorem gives_between : Gives (parseOperator field (.kw .between :: ts)) n rest ↔
    ∃ low mid, Gives (parseValue ts) low mid ∧
      ∃ mid' high, mid = .kw .and :: mid' ∧ Gives (parseValue mid') high rest ∧
        .between field low high = n := by
  rw [parseOperator]
  refine gives_bind fun low mid h => ?_
  dsimp only
  split
  · refine (gives_map (Node.between field low) fun b r h => by exact ⟨_, rfl⟩).trans ?_
    simp
  · rename_i hne
    refine iff_of_false not_gives_error ?_
    rintro ⟨mid', high, rfl, -⟩
    exact hne mid' h rfl HEq.rfl

theorem gives_parseOperator : Gives (parseOperator field ts) n rest ↔
    ∃ d : Test, ts = d.tokens ++ rest ∧ d.tree field = n := by
  constructor
  · intro h
    rw [parseOperator.eq_def] at h
    split at h
    · exact absurd h not_gives_error
    · obtain ⟨vs, hvs, rfl⟩ :=
        (gives_map (Node.isIn field) fun b r h => by exact ⟨_, rfl⟩).mp h
      obtain ⟨d, rfl, rfl⟩ := gives_parseValueList.mp hvs
      exact ⟨.isIn d, by simp [Test.tokens], rfl⟩
    · obtain ⟨vs, hvs, rfl⟩ :=
        (gives_map (Node.notIn field) fun b r h => by exact ⟨_, rfl⟩).mp h
      obtain ⟨d, rfl, rfl⟩ := gives_parseValueList.mp hvs
      exact ⟨.notIn d, by simp [Test.tokens], rfl⟩
    · exact absurd h not_gives_error
    · obtain ⟨low, mid, hlow, mid', high, rfl, hhigh, rfl⟩ := gives_between.mp h
      obtain ⟨l, rfl, rfl⟩ := gives_parseValue.mp hlow
      obtain ⟨r, rfl, rfl⟩ := gives_parseValue.mp hhigh
      exact ⟨.between l r, rfl, rfl⟩
    · exact absurd h not_gives_error
    · obtain ⟨v, hv, rfl⟩ :=
        (gives_map (Node.cmp field _) fun b r h => by exact ⟨_, rfl⟩).mp h
      obtain ⟨d, rfl, rfl⟩ := gives_parseValue.mp hv
      exact ⟨.cmp _ d, rfl, rfl⟩
    all_goals exact absurd h not_gives_error
  · rintro ⟨d, rfl, rfl⟩
    cases d with
    | cmp o v =>
      exact (gives_map (Node.cmp field o) fun b r h => by exact ⟨_, rfl⟩).mpr
        ⟨_, gives_parseValue.mpr ⟨v, rfl, rfl⟩, rfl⟩
    | isIn vs =>
      refine (gives_map (Node.isIn field) fun b r h => by exact ⟨_, rfl⟩).mpr
        ⟨_, gives_parseValueList.mpr ⟨vs, ?_, rfl⟩, rfl⟩
      simp
    | notIn vs =>
      refine (gives_map (Node.notIn field) fun b r h => by exact ⟨_, rfl⟩).mpr
        ⟨_, gives_parseValueList.mpr ⟨vs, ?_, rfl⟩, rfl⟩
      simp
    | between low high =>
      exact gives_between.mpr ⟨_, _, gives_parseValue.mpr ⟨low, rfl, rfl⟩, _, _, rfl,
        gives_parseValue.mpr ⟨high, rfl, rfl⟩, rfl⟩

theorem gives_parseComparison : Gives (parseComparison ts) n rest ↔
    ∃ field, ∃ d : Test, ts = .ident field :: d.tokens ++ rest ∧ d.tree field = n := by
  rw [parseComparison.eq_def]
  split
  · refine (gives_map id fun b r h => by exact ⟨_, rfl⟩).trans ?_
    simp [gives_parseOperator]
  · rename_i hne
    refine iff_of_false not_gives_error ?_
    rintro ⟨field, d, hd, -⟩
    exact hne field _ hd

/-! ### Expressions -/

theorem gives_parseOr : Gives (parseOr ts) n rest ↔
    ∃ a mid, Gives (parseAnd ts) a mid ∧ Gives (orLoop a mid) n rest := by
  rw [parseOr]
  refine gives_bind fun a mid h => ?_
  exact (gives_map id fun b r h => by exact ⟨_, rfl⟩).trans (by simp)

theorem gives_orLoop : Gives (orLoop a (.kw .or :: ts)) n rest ↔
    ∃ b mid, Gives (parseAnd ts) b mid ∧ Gives (orLoop (.or a b) mid) n rest := by
  rw [orLoop]
  refine gives_bind fun b mid h => ?_
  exact (gives_map id fun b r h => by exact ⟨_, rfl⟩).trans (by simp)

theorem gives_parseAnd : Gives (parseAnd ts) n rest ↔
    ∃ a mid, Gives (parseNot ts) a mid ∧ Gives (andLoop a mid) n rest := by
  rw [parseAnd]
  refine gives_bind fun a mid h => ?_
  exact (gives_map id fun b r h => by exact ⟨_, rfl⟩).trans (by simp)

theorem gives_andLoop : Gives (andLoop a (.kw .and :: ts)) n rest ↔
    ∃ b mid, Gives (parseNot ts) b mid ∧ Gives (andLoop (.and a b) mid) n rest := by
  rw [andLoop]
  refine gives_bind fun b mid h => ?_
  exact (gives_map id fun b r h => by exact ⟨_, rfl⟩).trans (by simp)

theorem begins_or_not (t : Token) (ts : List Token) :
    (∃ ts', ts = t :: ts') ∨ ts.head? ≠ some t := by
  cases ts with
  | nil => exact .inr (by simp)
  | cons t' ts =>
    by_cases h : t' = t
    · exact .inl ⟨ts, by rw [h]⟩
    · exact .inr (by simpa using h)

theorem Value.token_inj {v w : Value} : v.token = w.token ↔ v = w := by
  cases v <;> cases w <;> simp [Value.token]

theorem Values.tokens_inj {vs ws : Values} {rest' : List Token}
    (h : vs.tokens ++ .rparen :: rest = ws.tokens ++ .rparen :: rest') : vs = ws := by
  obtain ⟨v, vs⟩ := vs
  obtain ⟨w, ws⟩ := ws
  simp only [Values.tokens, List.cons_append, List.cons.injEq, Value.token_inj] at h
  obtain ⟨rfl, h⟩ := h
  congr
  induction vs generalizing ws with
  | nil =>
    cases ws with
    | nil => rfl
    | cons w ws => simp at h
  | cons u vs ih =>
    cases ws with
    | nil => simp at h
    | cons w ws =>
      simp only [List.flatMap_cons, List.cons_append, List.nil_append, List.cons.injEq,
        Value.token_inj, true_and] at h
      obtain ⟨rfl, h⟩ := h
      rw [ih ws h]

theorem Test.tokens_inj {t u : Test} {rest' : List Token}
    (h : t.tokens ++ rest = u.tokens ++ rest') : t = u := by
  cases t <;> cases u <;>
    simp_all [Test.tokens, Value.token_inj]
  · exact Values.tokens_inj h
  · exact Values.tokens_inj h

/-! ## The parser follows the grammar -/

/-- No keyword comes next that would go on with an `expr`, or an `andExpr`. -/
def Stops (ks : List Keyword) (rest : List Token) : Prop := ∀ k ∈ ks, rest.head? ≠ some (.kw k)

/-- On these tokens, every function of the parser follows its part of the grammar. -/
structure Follows (ts : List Token) : Prop where
  not : Exact (parseNot ts) (fun d rest => ts = d.tokens ++ rest) NotExpr.tree
  andMore : ∀ a, Exact (andLoop a ts)
    (fun d rest => ts = d.tokens ++ rest ∧ Stops [.and] rest) (AndMore.tree a)
  and : Exact (parseAnd ts) (fun d rest => ts = d.tokens ++ rest ∧ Stops [.and] rest) AndExpr.tree
  orMore : Stops [.and] ts → ∀ a, Exact (orLoop a ts)
    (fun d rest => ts = d.tokens ++ rest ∧ Stops [.and, .or] rest) (OrMore.tree a)
  or : Exact (parseOr ts) (fun d rest => ts = d.tokens ++ rest ∧ Stops [.and, .or] rest) Expr.tree

theorem OrMore.stops (d : OrMore) (h : Stops [.and, .or] rest) :
    Stops [.and] (d.tokens ++ rest) := by
  cases d with
  | nil => exact fun k hk => h k (by simp_all)
  | or b more => simp [Stops, OrMore.tokens]

section Follows

variable (ih : ∀ ts', ts'.length < ts.length → Follows ts')
include ih

theorem follows_atom :
    Exact (parseAtom ts) (fun d rest => ts = d.tokens ++ rest) Atom.tree := by
  obtain ⟨ts', rfl⟩ | hne := begins_or_not .lparen ts
  · refine .map .paren id (.rparen :: ·) (ih ts' (by simp)).or ?_ ?_ ?_ fun _ => rfl
    · intro n rest
      rw [parseAtom]
      exact (gives_bind fun b mid h => gives_expectSym).trans (by simp)
    · intro c rest hc
      cases c with
      | paren e => exact ⟨e, rfl⟩
      | comparison field t => simp [Atom.tokens] at hc
    · simp [Atom.tokens, Stops]
  · have hgives : ∀ {n rest}, Gives (parseAtom ts) n rest ↔ Gives (parseComparison ts) n rest := by
      intro n rest
      rw [parseAtom.eq_def]
      split
      · exact iff_of_false not_gives_error not_gives_error
      · exact absurd rfl hne
      · rfl
    refine ⟨fun {n rest} => ?_, fun {c c' rest rest'} hc hc' => ?_⟩
    · rw [hgives, gives_parseComparison]
      constructor
      · rintro ⟨field, t, hts, rfl⟩
        exact ⟨.comparison field t, hts, rfl⟩
      · rintro ⟨c, hc, rfl⟩
        cases c with
        | paren e => exact absurd (by rw [hc]; rfl) hne
        | comparison field t => exact ⟨field, t, hc, rfl⟩
    · cases c with
      | paren e => exact absurd (by rw [hc]; rfl) hne
      | comparison field t =>
        subst hc
        cases c' with
        | paren e => simp [Atom.tokens] at hc'
        | comparison field' t' =>
          simp only [Atom.tokens, List.cons_append, List.cons.injEq, Token.ident.injEq] at hc'
          rw [hc'.1, Test.tokens_inj hc'.2]

theorem follows_not : Exact (parseNot ts) (fun d rest => ts = d.tokens ++ rest) NotExpr.tree := by
  obtain ⟨ts', rfl⟩ | hne := begins_or_not (.kw .not) ts
  · refine .map .not Node.not id (ih ts' (by simp)).not ?_ ?_ ?_ fun _ => rfl
    · intro n rest
      rw [parseNot]
      exact gives_map Node.not fun b r h => by exact ⟨_, rfl⟩
    · intro c rest hc
      cases c with
      | not d => exact ⟨d, rfl⟩
      | atom a => cases a <;> simp [NotExpr.tokens, Atom.tokens] at hc
    · simp [NotExpr.tokens]
  · refine .map .atom id id (follows_atom ih) ?_ ?_ Iff.rfl fun _ => rfl
    · intro n rest
      rw [parseNot.eq_def]
      split
      · exact absurd rfl hne
      · simp
    · intro c rest hc
      cases c with
      | not d => exact absurd (by rw [hc]; rfl) hne
      | atom a => exact ⟨a, rfl⟩

theorem follows_andMore (a : Node) : Exact (andLoop a ts)
    (fun d rest => ts = d.tokens ++ rest ∧ Stops [.and] rest) (AndMore.tree a) := by
  obtain ⟨ts', rfl⟩ | hne := begins_or_not (.kw .and) ts
  · have hnot := (ih ts' (by simp)).not
    refine .seq .and (fun b => AndMore.tree (.and a b)) hnot
      (fun {d mid} hd => (ih mid ?_).andMore (.and a d.tree)) gives_andLoop ?_ ?_ fun _ _ => rfl
    · exact Nat.lt_succ_of_lt (hnot.gives.mpr ⟨d, hd, rfl⟩).1
    · rintro c rest ⟨hc, hstop⟩
      cases c with
      | nil => exact absurd (congrArg List.head? hc.symm) (hstop .and (by simp))
      | and d e => exact ⟨d, e, rfl⟩
    · intro d e rest
      simp [AndMore.tokens]
  · refine .nil .nil ts ?_ ?_ ?_ rfl
    · intro n rest
      rw [andLoop.eq_def]
      split
      · exact absurd rfl hne
      · exact gives_ok
    · rintro c rest ⟨hc, -⟩
      cases c with
      | nil => rfl
      | and d e => exact absurd (by rw [hc]; rfl) hne
    · intro rest
      refine ⟨And.left, fun h => ⟨h, ?_⟩⟩
      rw [← h]
      simpa [Stops] using hne

theorem follows_and : Exact (parseAnd ts)
    (fun d rest => ts = d.tokens ++ rest ∧ Stops [.and] rest) AndExpr.tree := by
  refine .seq .mk AndMore.tree (follows_not ih) (fun {d mid} hd => (ih mid ?_).andMore d.tree)
    gives_parseAnd ?_ ?_ fun _ _ => rfl
  · exact ((follows_not ih).gives.mpr ⟨d, hd, rfl⟩).1
  · rintro ⟨d, e⟩ rest -
    exact ⟨d, e, rfl⟩
  · intro d e rest
    simp [AndExpr.tokens]

theorem follows_orMore (hts : Stops [.and] ts) (a : Node) : Exact (orLoop a ts)
    (fun d rest => ts = d.tokens ++ rest ∧ Stops [.and, .or] rest) (OrMore.tree a) := by
  obtain ⟨ts', rfl⟩ | hne := begins_or_not (.kw .or) ts
  · have hand := (ih ts' (by simp)).and
    refine .seq .or (fun b => OrMore.tree (.or a b)) hand
      (fun {d mid} hd => (ih mid ?_).orMore hd.2 (.or a d.tree)) gives_orLoop ?_ ?_ fun _ _ => rfl
    · exact Nat.lt_succ_of_lt (hand.gives.mpr ⟨d, hd, rfl⟩).1
    · rintro c rest ⟨hc, hstop⟩
      cases c with
      | nil => exact absurd (congrArg List.head? hc.symm) (hstop .or (by simp))
      | or d e => exact ⟨d, e, rfl⟩
    · intro d e rest
      simp only [OrMore.tokens, List.cons_append, List.cons.injEq, true_and, List.append_assoc]
      constructor
      · rintro ⟨h, hstop⟩
        exact ⟨_, ⟨h, e.stops hstop⟩, rfl, hstop⟩
      · rintro ⟨_, ⟨h, -⟩, rfl, hstop⟩
        exact ⟨h, hstop⟩
  · refine .nil .nil ts ?_ ?_ ?_ rfl
    · intro n rest
      rw [orLoop.eq_def]
      split
      · exact absurd rfl hne
      · exact gives_ok
    · rintro c rest ⟨hc, -⟩
      cases c with
      | nil => rfl
      | or d e => exact absurd (by rw [hc]; rfl) hne
    · intro rest
      refine ⟨And.left, fun h => ⟨h, ?_⟩⟩
      rw [← h]
      exact List.forall_mem_cons.mpr ⟨hts .and (by simp), by simpa using hne⟩

theorem follows_or : Exact (parseOr ts)
    (fun d rest => ts = d.tokens ++ rest ∧ Stops [.and, .or] rest) Expr.tree := by
  refine .seq .mk OrMore.tree (follows_and ih)
    (fun {d mid} hd => (ih mid ?_).orMore hd.2 d.tree) gives_parseOr ?_ ?_ fun _ _ => rfl
  · exact ((follows_and ih).gives.mpr ⟨d, hd, rfl⟩).1
  · rintro ⟨d, e⟩ rest -
    exact ⟨d, e, rfl⟩
  · intro d e rest
    simp only [Expr.tokens, List.append_assoc]
    constructor
    · rintro ⟨h, hstop⟩
      exact ⟨_, ⟨h, e.stops hstop⟩, rfl, hstop⟩
    · rintro ⟨_, ⟨h, -⟩, rfl, hstop⟩
      exact ⟨h, hstop⟩

end Follows

theorem follows (ts : List Token) : Follows ts := by
  induction ts using of_shorter with
  | step ts ih =>
    exact ⟨follows_not ih, follows_andMore ih, follows_and ih, follows_orMore ih, follows_or ih⟩

/-! ## The whole of a query -/

def parseTokens (toks : List Token) : Except String Node := do
  let ⟨n, rest, _⟩ ← parseOr toks
  if rest = [] then return n
  else throw s!"trailing tokens at pos {toks.length - rest.length}"

theorem parseVisibilityQuery_eq (q : String) :
    parseVisibilityQuery q =
      if trimSpace q = [] then .ok none
      else vtokenizeFrom 0 (trimSpace q) >>= fun toks => some <$> parseTokens toks := by
  rw [parseVisibilityQuery]
  split_ifs with hq
  · rfl
  · refine congrArg _ (funext fun toks => ?_)
    rw [parseTokens]
    cases parseOr toks with
    | error e => rfl
    | ok p =>
      obtain ⟨n, rest, h⟩ := p
      change ite _ _ _ = some <$> ite _ _ _
      split_ifs <;> rfl

theorem parseTokens_ok : parseTokens ts = .ok n ↔ Gives (parseOr ts) n [] := by
  rw [parseTokens]
  cases h : parseOr ts with
  | error e => exact iff_of_false (fun h => by cases h) not_gives_error
  | ok p =>
    obtain ⟨m, rest, hrest⟩ := p
    refine Iff.trans ?_ gives_ok.symm
    by_cases hrest : rest = []
    · simp [hrest, bind, Except.bind, pure, Except.pure]
    · simp [hrest, bind, Except.bind, throw, throwThe, MonadExceptOf.throw]

theorem parseTokens_iff : parseTokens ts = .ok n ↔ ∃ d : Expr, d.tokens = ts ∧ d.tree = n := by
  rw [parseTokens_ok, (follows ts).or.gives]
  simp [Stops, eq_comm]

/-- The parser accepts the grammar: it returns a tree if the tokens have a
derivation with it, which then is the only one, and an error if they have none. -/
theorem parseTokens_follows_grammar (ts : List Token) :
    (∀ t, parseTokens ts = .ok t ↔ ∃ d : Expr, d.tokens = ts ∧ d.tree = t) ∧
    (∀ d d' : Expr, d.tokens = ts → d'.tokens = ts → d = d') ∧
    ((¬∃ d : Expr, d.tokens = ts) → ∃ e, parseTokens ts = .error e) := by
  refine ⟨fun t => parseTokens_iff, fun d d' hd hd' => ?_, fun hnone => ?_⟩
  · have hd : ts = d.tokens ++ [] := by rw [List.append_nil, hd]
    have hd' : ts = d'.tokens ++ [] := by rw [List.append_nil, hd']
    exact (follows ts).or.unique ⟨hd, by simp [Stops]⟩ ⟨hd', by simp [Stops]⟩
  · cases h : parseTokens ts with
    | error e => exact ⟨e, rfl⟩
    | ok t =>
      obtain ⟨d, hd, -⟩ := parseTokens_iff.mp h
      exact absurd ⟨d, hd⟩ hnone

end DurableTasks.Visibility
