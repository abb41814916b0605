import DurableTasks.Model.Types
import Mathlib.Tactic.SplitIfs

/-!
Visibility queries: their tokens, their grammar and what they select.

    expr       := andExpr ('OR' andExpr)*
    andExpr    := notExpr ('AND' notExpr)*
    notExpr    := 'NOT' notExpr | atom
    atom       := '(' expr ')' | comparison
    comparison := ident op value | ident 'IN' '(' values ')'
                | ident 'NOT' 'IN' '(' values ')' | ident 'BETWEEN' value 'AND' value
-/

namespace DurableTasks.Visibility

/-! ## Tokens -/

inductive Keyword where
  | and
  | or
  | not
  | isIn
  | between
deriving DecidableEq

def Keyword.text : Keyword → String
  | .and => "AND"
  | .or => "OR"
  | .not => "NOT"
  | .isIn => "IN"
  | .between => "BETWEEN"

inductive Op where
  | eq
  | ne
  | gt
  | lt
  | ge
  | le
deriving DecidableEq

def Op.text : Op → String
  | .eq => "="
  | .ne => "!="
  | .gt => ">"
  | .lt => "<"
  | .ge => ">="
  | .le => "<="

inductive Token where
  | ident (name : String)
  | str (s : String)
  | num (s : String)
  | op (o : Op)
  | lparen
  | rparen
  | comma
  | kw (k : Keyword)
deriving DecidableEq

def Token.kind : Token → String
  | .ident _ => "ident"
  | .str _ => "str"
  | .num _ => "num"
  | .kw _ => "kw"
  | _ => "sym"

def Token.val : Token → String
  | .ident s | .str s | .num s => s
  | .op o => o.text
  | .lparen => "("
  | .rparen => ")"
  | .comma => ","
  | .kw k => k.text

def shown : Option Token → String
  | none => "<nil>"
  | some t => s!"&\x7bkind:{t.kind} val:{t.val}\x7d"

def isDigit (c : Char) : Bool := '0' ≤ c && c ≤ '9'

def isLetter (c : Char) : Bool := ('A' ≤ c && c ≤ 'Z') || ('a' ≤ c && c ≤ 'z') || c == '_'

def isQuote (c : Char) : Bool := c.toNat == 39 || c.toNat == 34

/-- A word is a keyword, in any case, or a name. -/
def wordToken (word : String) : Token :=
  match [Keyword.and, .or, .not, .isIn, .between].find? fun k => k.text = word.toUpper with
  | some k => .kw k
  | none => .ident word

def bytes (cs : List Char) : Nat := (cs.map Char.utf8Size).sum

/-- `vtokenize`, from the `i`-th byte on. -/
def vtokenizeFrom (i : Nat) (cs : List Char) : Except String (List Token) :=
  match cs with
  | [] => .ok []
  | c :: cs =>
    if c = ' ' ∨ c = '\t' ∨ c = '\n' then vtokenizeFrom (i + 1) cs
    else if c = '(' then (vtokenizeFrom (i + 1) cs).map (.lparen :: ·)
    else if c = ')' then (vtokenizeFrom (i + 1) cs).map (.rparen :: ·)
    else if c = ',' then (vtokenizeFrom (i + 1) cs).map (.comma :: ·)
    else if c = '=' then (vtokenizeFrom (i + 1) cs).map (.op .eq :: ·)
    else if c = '!' then
      match cs with
      | '=' :: cs => (vtokenizeFrom (i + 2) cs).map (.op .ne :: ·)
      | _ => .error s!"unexpected '!' at {i}"
    else if c = '>' then
      match cs with
      | '=' :: cs => (vtokenizeFrom (i + 2) cs).map (.op .ge :: ·)
      | cs => (vtokenizeFrom (i + 1) cs).map (.op .gt :: ·)
    else if c = '<' then
      match cs with
      | '=' :: cs => (vtokenizeFrom (i + 2) cs).map (.op .le :: ·)
      | cs => (vtokenizeFrom (i + 1) cs).map (.op .lt :: ·)
    else if isQuote c then
      let s := cs.takeWhile (· != c)
      match h : cs.dropWhile (· != c) with
      | [] => .error s!"unterminated string starting at {i}"
      | _ :: rest =>
        have : rest.length < cs.length := by
          have hle := (List.dropWhile_suffix (l := cs) (· != c)).length_le
          rw [h] at hle
          simp only [List.length_cons] at hle
          omega
        (vtokenizeFrom (i + bytes s + 2) rest).map (.str (String.ofList s) :: ·)
    else if isDigit c ∨ c = '-' ∨ c = '+' then
      let s := cs.takeWhile fun c => isDigit c || c == '.'
      have : (cs.dropWhile fun c => isDigit c || c == '.').length ≤ cs.length :=
        (List.dropWhile_suffix _).length_le
      (vtokenizeFrom (i + 1 + s.length) (cs.dropWhile fun c => isDigit c || c == '.')).map
        (.num (String.ofList (c :: s)) :: ·)
    else if isLetter c then
      let s := cs.takeWhile fun c => isLetter c || isDigit c
      have : (cs.dropWhile fun c => isLetter c || isDigit c).length ≤ cs.length :=
        (List.dropWhile_suffix _).length_le
      (vtokenizeFrom (i + 1 + s.length) (cs.dropWhile fun c => isLetter c || isDigit c)).map
        (wordToken (String.ofList (c :: s)) :: ·)
    else .error s!"unexpected char {c.quote} at {i}"
termination_by cs.length
decreasing_by all_goals simp only [List.length_cons]; omega

def vtokenize (q : String) : Except String (List Token) := vtokenizeFrom 0 q.toList

/-! ## Grammar -/

inductive Node where
  | and (a b : Node)
  | or (a b : Node)
  | not (a : Node)
  | cmp (field : String) (o : Op) (value : String)
  | isIn (field : String) (list : List String)
  | notIn (field : String) (list : List String)
  | between (field low high : String)

abbrev Fewer (ts : List Token) := { rest : List Token // rest.length < ts.length }

abbrev NoMore (ts : List Token) := { rest : List Token // rest.length ≤ ts.length }

def parseValue (ts : List Token) : Except String (String × Fewer ts) :=
  match ts with
  | .str s :: ts | .num s :: ts | .ident s :: ts => .ok (s, ⟨ts, by simp⟩)
  | [] => .error "expected value"
  | t :: _ => .error s!"expected value, got {shown t}"

def expectSym (t : Token) (ts : List Token) : Except String (Fewer ts) :=
  match ts with
  | [] => throw s!"expected {t.val.quote}"
  | t' :: ts => if t' = t then .ok ⟨ts, by simp⟩ else throw s!"expected {t.val.quote}"

/-- The loop of `parseValueList`, up to the closing parenthesis. -/
def valueLoop (ts : List Token) : Except String (List String × Fewer ts) := do
  let ⟨v, rest, hrest⟩ ← parseValue ts
  match rest, hrest with
  | .comma :: rest, hrest => do
      let ⟨vs, rest', hrest'⟩ ← valueLoop rest
      return (v :: vs, ⟨rest', by simp only [List.length_cons] at hrest; omega⟩)
  | rest, hrest => do
      let ⟨rest', hrest'⟩ ← expectSym .rparen rest
      return ([v], ⟨rest', by omega⟩)
termination_by ts.length
decreasing_by simp only [List.length_cons] at hrest; omega

def parseValueList (ts : List Token) : Except String (List String × Fewer ts) := do
  let ⟨rest, hrest⟩ ← expectSym .lparen ts
  let ⟨vs, rest', hrest'⟩ ← valueLoop rest
  return (vs, ⟨rest', by omega⟩)

def parseOperator (field : String) (ts : List Token) : Except String (Node × Fewer ts) :=
  match ts with
  | [] => throw s!"expected operator after {field.quote}"
  | .kw .isIn :: ts => do
      let ⟨vs, rest, hrest⟩ ← parseValueList ts
      return (.isIn field vs, ⟨rest, by simp only [List.length_cons]; omega⟩)
  | .kw .not :: .kw .isIn :: ts => do
      let ⟨vs, rest, hrest⟩ ← parseValueList ts
      return (.notIn field vs, ⟨rest, by simp only [List.length_cons]; omega⟩)
  | .kw .not :: _ => throw "expected IN after NOT"
  | .kw .between :: ts => do
      let ⟨low, rest, hrest⟩ ← parseValue ts
      match rest, hrest with
      | .kw .and :: rest, hrest =>
        let ⟨high, rest', hrest'⟩ ← parseValue rest
        return (.between field low high,
          ⟨rest', by simp only [List.length_cons] at hrest ⊢; omega⟩)
      | _, _ => throw "expected AND in BETWEEN"
  | .kw k :: _ => throw s!"unexpected keyword {k.text.quote}"
  | .op o :: ts => do
      let ⟨v, rest, hrest⟩ ← parseValue ts
      return (.cmp field o v, ⟨rest, by simp only [List.length_cons]; omega⟩)
  | .lparen :: _ => throw s!"unexpected operator {Token.lparen.val.quote}"
  | .rparen :: _ => throw s!"unexpected operator {Token.rparen.val.quote}"
  | .comma :: _ => throw s!"unexpected operator {Token.comma.val.quote}"
  | t :: _ => throw s!"expected operator, got {shown t}"

def parseComparison (ts : List Token) : Except String (Node × Fewer ts) :=
  match ts with
  | .ident field :: ts => do
      let ⟨n, rest, hrest⟩ ← parseOperator field ts
      return (n, ⟨rest, by simp only [List.length_cons]; omega⟩)
  | ts => throw s!"expected identifier, got {shown ts.head?}"

mutual

def parseOr (ts : List Token) : Except String (Node × Fewer ts) := do
  let ⟨a, rest, hrest⟩ ← parseAnd ts
  let ⟨n, rest', hrest'⟩ ← orLoop a rest
  return (n, ⟨rest', by omega⟩)
termination_by 4 * ts.length + 3

def orLoop (a : Node) (ts : List Token) : Except String (Node × NoMore ts) :=
  match ts with
  | .kw .or :: ts => do
      let ⟨b, rest, hrest⟩ ← parseAnd ts
      let ⟨n, rest', hrest'⟩ ← orLoop (.or a b) rest
      return (n, ⟨rest', by simp only [List.length_cons]; omega⟩)
  | ts => return (a, ⟨ts, Nat.le_refl _⟩)
termination_by 4 * ts.length

def parseAnd (ts : List Token) : Except String (Node × Fewer ts) := do
  let ⟨a, rest, hrest⟩ ← parseNot ts
  let ⟨n, rest', hrest'⟩ ← andLoop a rest
  return (n, ⟨rest', by omega⟩)
termination_by 4 * ts.length + 2

def andLoop (a : Node) (ts : List Token) : Except String (Node × NoMore ts) :=
  match ts with
  | .kw .and :: ts => do
      let ⟨b, rest, hrest⟩ ← parseNot ts
      let ⟨n, rest', hrest'⟩ ← andLoop (.and a b) rest
      return (n, ⟨rest', by simp only [List.length_cons]; omega⟩)
  | ts => return (a, ⟨ts, Nat.le_refl _⟩)
termination_by 4 * ts.length

def parseNot (ts : List Token) : Except String (Node × Fewer ts) :=
  match ts with
  | .kw .not :: ts => do
      let ⟨a, rest, hrest⟩ ← parseNot ts
      return (.not a, ⟨rest, by simp only [List.length_cons]; omega⟩)
  | ts => parseAtom ts
termination_by 4 * ts.length + 1

def parseAtom (ts : List Token) : Except String (Node × Fewer ts) :=
  match ts with
  | [] => throw "unexpected end of query"
  | .lparen :: ts => do
      let ⟨n, rest, hrest⟩ ← parseOr ts
      let ⟨rest', hrest'⟩ ← expectSym .rparen rest
      return (n, ⟨rest', by simp only [List.length_cons]; omega⟩)
  | ts => parseComparison ts
termination_by 4 * ts.length

end

def isSpace (c : Char) : Bool :=
  let n := c.toNat
  (9 ≤ n && n ≤ 13) || n == 0x20 || n == 0x85 || n == 0xa0 || n == 0x1680 ||
    (0x2000 ≤ n && n ≤ 0x200a) || n == 0x2028 || n == 0x2029 || n == 0x202f || n == 0x205f ||
    n == 0x3000

def trimSpace (q : String) : List Char :=
  ((q.toList.dropWhile isSpace).reverse.dropWhile isSpace).reverse

/-- Nothing is asked by a blank query. -/
def parseVisibilityQuery (q : String) : Except String (Option Node) := do
  if trimSpace q = [] then return none
  else
    let toks ← vtokenizeFrom 0 (trimSpace q)
    let ⟨n, rest, _⟩ ← parseOr toks
    if rest = [] then return some n
    else throw s!"trailing tokens at pos {toks.length - rest.length}"

/-! ## What a query selects -/

structure Printing where
  time : Nat → String
  sprint : Json → String

def statusPrefix : String := "WORKFLOW_EXECUTION_STATUS_"

def normalizeStatus (s : String) : String :=
  if statusPrefix.toList.isPrefixOf s.toUpper.toList then s.toUpper
  else statusPrefix ++ s.toUpper

variable (P : Printing)

def fieldValue (r : RunRef) (row : WorkflowExecution) (field : String) : String :=
  match field with
  | "WorkflowType" => row.type
  | "WorkflowId" => r.wf
  | "RunId" => r.run
  | "ExecutionStatus" => row.status.name
  | "StartTime" => P.time row.startTime
  | "CloseTime" => (row.closeTime.map P.time).getD ""
  | "TaskQueue" => row.taskQueue
  | field =>
    match row.searchAttrs.find? fun a => a.1 = field with
    | some (_, v) => P.sprint v
    | none => ""

def compareValue (field want : String) : String :=
  if field = "ExecutionStatus" then normalizeStatus want else want

def Op.holds (o : Op) (got want : String) : Bool :=
  match o with
  | .eq => got = want
  | .ne => got ≠ want
  | .gt => want < got
  | .lt => got < want
  | .ge => want ≤ got
  | .le => got ≤ want

/-- What a comparison is made with: the value of the field, where the status is
normalised. -/
def compared (r : RunRef) (row : WorkflowExecution) (field : String) : String :=
  compareValue field (fieldValue P r row field)

def Node.eval (r : RunRef) (row : WorkflowExecution) : Node → Bool
  | .and a b => a.eval r row && b.eval r row
  | .or a b => a.eval r row || b.eval r row
  | .not a => !a.eval r row
  | .cmp field o value => o.holds (compared P r row field) (compareValue field value)
  | .isIn field list => list.any fun v => compared P r row field = compareValue field v
  | .notIn field list => !list.any fun v => compared P r row field = compareValue field v
  | .between field low high =>
    Op.ge.holds (compared P r row field) (compareValue field low) &&
      Op.le.holds (compared P r row field) (compareValue field high)

def selects (expr : Option Node) (p : RunRef × WorkflowExecution) : Bool :=
  match expr with
  | none => true
  | some n => n.eval P p.1 p.2

end DurableTasks.Visibility
