/-
  Formula.Expression

  Expressions: formulas that have been read once and can be evaluated any number
  of times.

    * `Expression.ofText? table blanks t` — the expression that `t` writes. It fails
      only if a piece of `t` has the shape of a number that cannot be converted. A
      text whose parentheses do not match gives an expression without tokens.
    * `Expression.rpn` — the tokens in reverse Polish order.
    * `Expression.evaluateWith e scope` — the number of `e` in a scope.
    * `Expression.evaluate e point` — the number of `e` at a point: in the standard
      scope, in the standard scope with the default variable bound to a number, or
      in a scope that the caller gives whole.
    * `Expression.sameAs` — equality of the cleaned text and the function names.
    * `Expression.hashBy digest` — the hash of the same two, by any digest of them.

  An expression carries the proof that its tokens are those of its text.
-/
import Formula.Depth
import Formula.Machine
import Formula.Polish
import Formula.Token.Reading

namespace Formula

/-- A formula that has been read with a table of functions. -/
structure Expression where
  /-- The functions that the formula may call. -/
  table : List Function
  /-- The formula as it was read, cleaned of blanks. -/
  text : Text
  tokens : List Token
  tokens_ofText : Token.ofText table text = .ok tokens

/-- Where an expression is evaluated. -/
inductive Point where
  /-- In the standard scope. -/
  | nowhere
  /-- In the standard scope with the default variable bound to a number. -/
  | number (x : Float)
  /-- In a scope given whole. -/
  | within (scope : Scope)

def Point.scope : Point → Scope
  | nowhere => Scope.standard
  | number x => Scope.standard.assign defaultVariable x
  | within scope => scope

namespace Expression

/-- The expression that a text writes. -/
def ofText? (table : List Function) (blanks : Blanks) (t : Text) : Except Fault Expression :=
  match h : Token.ofText table (blanks.clean t) with
  | .ok tokens => .ok ⟨table, blanks.clean t, tokens, h⟩
  | .error fault => .error fault

def rpn (e : Expression) : List Token :=
  Polish.ofTokens e.tokens

def isBalanced (e : Expression) : Bool :=
  Formula.isBalanced e.text

/-- Whether an evaluation leaves exactly one value once all variables are bound. -/
def isWellFormed (e : Expression) : Bool :=
  !e.rpn.isEmpty && isComplete e.rpn

def render (e : Expression) : Text :=
  Token.spacedNames e.tokens

def renderRpn (e : Expression) : Text :=
  Token.spacedNames e.rpn

def describe (e : Expression) : Text :=
  "Expression(".toList ++ quoted e.text ++ [')']

/-- Equality of the text and of the function names. -/
def sameAs (e f : Expression) : Bool :=
  e.text == f.text && Function.names e.table == Function.names f.table

/-- The hash of an expression, given a digest of a text and a list of names. -/
def hashBy (digest : Text × List Text → UInt64) (e : Expression) : UInt64 :=
  digest (e.text, Function.names e.table)

/-- The number of an expression in a scope. The number tokens that are read from a text all
    have their number, so no value that an evaluation leaves is missing. -/
def evaluateWith (e : Expression) (scope : Scope) : Except Fault Float :=
  (Machine.evaluate e.table scope e.rpn).map fun x => x.getD notANumber

/-- The number of an expression with the default variable bound to a number. -/
def evaluateAt (e : Expression) (x : Float) : Except Fault Float :=
  e.evaluateWith (Scope.standard.assign defaultVariable x)

def evaluate (e : Expression) (p : Point) : Except Fault Float :=
  e.evaluateWith p.scope

/-! ## Equality -/

theorem sameAs_iff {e f : Expression} :
    e.sameAs f = true ↔ e.text = f.text ∧ Function.names e.table = Function.names f.table := by
  simp [sameAs]

@[simp] theorem sameAs_refl (e : Expression) : e.sameAs e = true :=
  sameAs_iff.2 ⟨rfl, rfl⟩

/-- Equal expressions have the same hash. -/
theorem hashBy_eq_of_sameAs {e f : Expression} (h : e.sameAs f = true)
    (digest : Text × List Text → UInt64) : e.hashBy digest = f.hashBy digest := by
  obtain ⟨htext, hnames⟩ := sameAs_iff.1 h
  rw [hashBy, hashBy, htext, hnames]

/-! ## Construction -/

/-- An expression that was built keeps the table and the cleaned text. -/
theorem text_of_ofText? {table : List Function} {blanks : Blanks} {t : Text} {e : Expression}
    (h : ofText? table blanks t = .ok e) : e.table = table ∧ e.text = blanks.clean t := by
  unfold ofText? at h
  split at h
  · cases h; exact ⟨rfl, rfl⟩
  · cases h

/-- Table and text determine an expression. -/
theorem eq_of_table_text {e f : Expression} (htable : e.table = f.table) (htext : e.text = f.text) :
    e = f := by
  obtain ⟨table, text, tokens, h⟩ := e
  obtain ⟨table', text', tokens', h'⟩ := f
  obtain rfl : table = table' := htable
  obtain rfl : text = text' := htext
  obtain rfl : tokens = tokens' := Except.ok.inj (h.symm.trans h')
  rfl

/-- A text writes an expression exactly if that has the table and the cleaned text. -/
theorem ofText?_eq_ok_iff {table : List Function} {blanks : Blanks} {t : Text} {e : Expression} :
    ofText? table blanks t = .ok e ↔ e.table = table ∧ e.text = blanks.clean t := by
  refine ⟨text_of_ofText?, fun ⟨htable, htext⟩ => ?_⟩
  subst htable
  unfold ofText?
  split
  · exact congrArg Except.ok (eq_of_table_text rfl htext.symm)
  · rename_i fault h
    rw [← htext, e.tokens_ofText] at h
    cases h

/-- An expression cannot be built exactly if the tokens of its text cannot be read. -/
theorem ofText?_eq_error_iff {table : List Function} {blanks : Blanks} {t : Text} {fault : Fault} :
    ofText? table blanks t = .error fault ↔ Token.ofText table (blanks.clean t) = .error fault := by
  have hread : ∀ {fault : Fault}, ofText? table blanks t = .error fault →
      Token.ofText table (blanks.clean t) = .error fault := by
    intro fault h
    unfold ofText? at h
    split at h
    · cases h
    · rename_i htokens
      cases h
      exact htokens
  refine ⟨hread, fun h => ?_⟩
  cases hbuilt : ofText? table blanks t with
  | error fault' => rw [← Except.error.inj ((hread hbuilt).symm.trans h)]
  | ok e =>
    obtain ⟨rfl, htext⟩ := text_of_ofText? hbuilt
    rw [← htext, e.tokens_ofText] at h
    cases h

/-- The tokens of a balanced expression are those of the pieces of its text. -/
theorem ofPieces_of_isBalanced {e : Expression} (h : e.isBalanced = true) :
    Token.ofPieces e.table (pieces e.text) = .ok e.tokens := by
  rw [← e.tokens_ofText, Token.ofText]
  exact (if_pos h).symm

/-- An expression whose parentheses do not match has no tokens. -/
theorem tokens_of_not_isBalanced {e : Expression} (h : e.isBalanced = false) : e.tokens = [] := by
  have := e.tokens_ofText
  unfold Token.ofText at this
  rw [if_neg (by simpa [isBalanced] using h)] at this
  exact (Except.ok.inj this).symm

end Expression

end Formula
