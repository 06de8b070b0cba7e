import ScriptCheck.Grammar.Goal
import Mathlib.Data.List.Basic

/-!
# The documented grammar

Phrases in extended Backus-Naur form, the productions of the language, and derivations. The
grammar says nothing of the order in which a text is read: a phrase derives a word, or it does not,
and it may do so in several ways.

The production of statement lists is a parameter. The recognizer goes by `separatedList`, in which
one semicolon stands between two statements and another may follow the last one.
-/

namespace ScriptCheck

inductive Nonterminal
  | program | statementList | statement
  | assignment | call | ifStmt | whileStmt | repeatStmt | forStmt | returnStmt | breakStmt
  | functionDef | argList | arg | printStmt
  | expression | simpleExpr | term | power | factor | exprList
deriving DecidableEq, Repr

inductive Phrase
  | token (k : TokenKind)
  | part (n : Nonterminal)
  | sequence (ps : List Phrase)
  | choice (ps : List Phrase)
  | optional (p : Phrase)
  | many (p : Phrase)

namespace Phrase

/-! ### Productions -/

def symbol (s : Symbol) : Phrase :=
  token (.symbol s)

def keyword (k : Keyword) : Phrase :=
  token (.keyword k)

def relOp : Phrase :=
  choice [symbol .less, symbol .lessEq, symbol .greater, symbol .greaterEq, symbol .equal,
    symbol .notEqual]

def addOp : Phrase :=
  choice [symbol .plus, symbol .minus, keyword .kwOr, keyword .kwXor]

def mulOp : Phrase :=
  choice [symbol .times, symbol .divide, keyword .kwAnd, keyword .kwMod, keyword .kwDiv]

/-- Phrases of one kind with commas between them. -/
def commaList (p : Phrase) : Phrase :=
  sequence [p, many (sequence [symbol .comma, p])]

/-- `[ statement { ';' statement } [ ';' ] ]` -/
def separatedList : Phrase :=
  optional (sequence [part .statement, many (sequence [symbol .semicolon, part .statement]),
    optional (symbol .semicolon)])

/-- The productions, with `list` for statement lists. -/
def production (list : Phrase) : Nonterminal → Phrase
  | .program => sequence [part .statementList, token .eof]
  | .statementList => list
  | .statement =>
    choice [part .assignment, part .call, part .ifStmt, part .forStmt, part .whileStmt,
      part .repeatStmt, part .returnStmt, part .breakStmt, part .functionDef, part .printStmt]
  | .assignment =>
    sequence [token .identifier,
      optional (sequence [symbol .leftBracket, part .exprList, symbol .rightBracket]),
      symbol .assign, part .expression]
  | .call =>
    sequence [token .identifier, symbol .leftParen, optional (part .exprList), symbol .rightParen]
  | .ifStmt =>
    sequence [keyword .kwIf, part .expression, keyword .kwThen, part .statementList,
      choice [keyword .kwEnd, sequence [keyword .kwElse, part .statementList, keyword .kwEnd]]]
  | .whileStmt =>
    sequence [keyword .kwWhile, part .expression, keyword .kwDo, part .statementList,
      keyword .kwEnd]
  | .repeatStmt =>
    sequence [keyword .kwRepeat, part .statementList, keyword .kwUntil, part .expression]
  | .forStmt =>
    sequence [keyword .kwFor, token .identifier, symbol .assign, part .expression,
      choice [keyword .kwTo, keyword .kwDownto], part .expression, keyword .kwDo,
      part .statementList, keyword .kwEnd]
  | .returnStmt => sequence [keyword .kwReturn, part .expression]
  | .breakStmt => keyword .kwBreak
  | .functionDef =>
    sequence [keyword .kwFunction, token .identifier,
      optional (sequence [symbol .leftParen, optional (part .argList), symbol .rightParen]),
      part .statementList, keyword .kwEnd]
  | .argList => commaList (part .arg)
  | .arg => sequence [optional (keyword .kwRef), token .identifier]
  | .printStmt =>
    sequence [choice [keyword .kwPrint, keyword .kwPrintln], symbol .leftParen, part .expression,
      symbol .rightParen]
  | .expression => sequence [part .simpleExpr, optional (sequence [relOp, part .expression])]
  | .simpleExpr => sequence [part .term, many (sequence [addOp, part .term])]
  | .term => sequence [part .power, many (sequence [mulOp, part .power])]
  | .power =>
    sequence [many (choice [symbol .plus, symbol .minus]), part .factor,
      optional (sequence [symbol .power, part .factor])]
  | .factor =>
    choice [token .integer, token .real, token .string, keyword .kwTrue, keyword .kwFalse,
      sequence [token .identifier,
        optional (choice [sequence [symbol .leftBracket, part .exprList, symbol .rightBracket],
          sequence [symbol .leftParen, optional (part .exprList), symbol .rightParen]])],
      sequence [symbol .leftParen, part .expression, symbol .rightParen],
      sequence [keyword .kwNot, part .expression],
      sequence [symbol .leftBrace, optional (part .exprList), symbol .rightBrace]]
  | .exprList => commaList (part .expression)

end Phrase

/-! ### Derivations -/

/-- A phrase derives a word of tokens. -/
inductive Derives (rules : Nonterminal → Phrase) : Phrase → List TokenKind → Prop
  | token (k : TokenKind) : Derives rules (.token k) [k]
  | part {n : Nonterminal} {w : List TokenKind} (h : Derives rules (rules n) w) :
      Derives rules (.part n) w
  | nil : Derives rules (.sequence []) []
  | cons {p : Phrase} {ps : List Phrase} {u v : List TokenKind} (h : Derives rules p u)
      (h' : Derives rules (.sequence ps) v) : Derives rules (.sequence (p :: ps)) (u ++ v)
  | choice {p : Phrase} {ps : List Phrase} {w : List TokenKind} (hp : p ∈ ps)
      (h : Derives rules p w) : Derives rules (.choice ps) w
  | skip (p : Phrase) : Derives rules (.optional p) []
  | take {p : Phrase} {w : List TokenKind} (h : Derives rules p w) : Derives rules (.optional p) w
  | stop (p : Phrase) : Derives rules (.many p) []
  | again {p : Phrase} {u v : List TokenKind} (h : Derives rules p u)
      (h' : Derives rules (.many p) v) : Derives rules (.many p) (u ++ v)

/-- Phrases that stand one behind the other derive a word. -/
def DerivesAll (rules : Nonterminal → Phrase) (ps : List Phrase) (w : List TokenKind) : Prop :=
  Derives rules (.sequence ps) w

section

variable {rules : Nonterminal → Phrase} {n : Nonterminal} {k : TokenKind} {p : Phrase}
  {ps ps' qs : List Phrase} {u v w : List TokenKind}

@[simp] theorem derivesAll_nil : DerivesAll rules [] w ↔ w = [] := by
  constructor
  · intro h
    cases h
    rfl
  · rintro rfl
    exact .nil

theorem derivesAll_cons :
    DerivesAll rules (p :: ps) w ↔
      ∃ u v, w = u ++ v ∧ Derives rules p u ∧ DerivesAll rules ps v := by
  constructor
  · intro h
    cases h with
    | cons h h' => exact ⟨_, _, rfl, h, h'⟩
  · rintro ⟨u, v, rfl, h, h'⟩
    exact .cons h h'

theorem derivesAll_append :
    DerivesAll rules (ps ++ qs) w ↔
      ∃ u v, w = u ++ v ∧ DerivesAll rules ps u ∧ DerivesAll rules qs v := by
  induction ps generalizing w with
  | nil => simp
  | cons p ps ih =>
    simp only [List.cons_append, derivesAll_cons, ih]
    constructor
    · rintro ⟨u, v, rfl, hp, u', v', rfl, h, h'⟩
      exact ⟨u ++ u', v', (List.append_assoc ..).symm, ⟨u, u', rfl, hp, h⟩, h'⟩
    · rintro ⟨u, v, rfl, ⟨u', v', rfl, hp, h⟩, h'⟩
      exact ⟨u', v' ++ v, List.append_assoc .., hp, v', v, rfl, h, h'⟩

/-- What stands behind some phrases may be exchanged for something that derives more. -/
theorem DerivesAll.mono (h : DerivesAll rules (qs ++ ps) w)
    (hp : ∀ v, DerivesAll rules ps v → DerivesAll rules ps' v) :
    DerivesAll rules (qs ++ ps') w := by
  obtain ⟨u, v, rfl, hu, hv⟩ := derivesAll_append.1 h
  exact derivesAll_append.2 ⟨u, v, rfl, hu, hp v hv⟩

/-! ### The first phrase of several -/

theorem derivesAll_of_derives (h : ∀ w, Derives rules p w ↔ DerivesAll rules qs w) :
    DerivesAll rules (p :: ps) w ↔ DerivesAll rules (qs ++ ps) w := by
  simp only [derivesAll_cons, derivesAll_append, h]

@[simp] theorem derivesAll_token :
    DerivesAll rules (.token k :: ps) w ↔ ∃ v, w = k :: v ∧ DerivesAll rules ps v := by
  rw [derivesAll_cons]
  constructor
  · rintro ⟨u, v, rfl, h, h'⟩
    cases h
    exact ⟨v, rfl, h'⟩
  · rintro ⟨v, rfl, h⟩
    exact ⟨[k], v, rfl, .token k, h⟩

@[simp] theorem derivesAll_symbol {s : Symbol} :
    DerivesAll rules (.symbol s :: ps) w ↔ ∃ v, w = .symbol s :: v ∧ DerivesAll rules ps v :=
  derivesAll_token

@[simp] theorem derivesAll_keyword {kw : Keyword} :
    DerivesAll rules (.keyword kw :: ps) w ↔ ∃ v, w = .keyword kw :: v ∧ DerivesAll rules ps v :=
  derivesAll_token

theorem derivesAll_part :
    DerivesAll rules (.part n :: ps) w ↔ DerivesAll rules (rules n :: ps) w := by
  simp only [derivesAll_cons]
  constructor
  · rintro ⟨u, v, rfl, h, h'⟩
    cases h with
    | part h => exact ⟨u, v, rfl, h, h'⟩
  · rintro ⟨u, v, rfl, h, h'⟩
    exact ⟨u, v, rfl, .part h, h'⟩

@[simp] theorem derivesAll_sequence :
    DerivesAll rules (.sequence qs :: ps) w ↔ DerivesAll rules (qs ++ ps) w :=
  derivesAll_of_derives fun _ => Iff.rfl

@[simp] theorem derivesAll_choice_nil : ¬ DerivesAll rules (.choice [] :: ps) w := by
  rw [derivesAll_cons]
  rintro ⟨u, v, rfl, h, -⟩
  cases h with
  | choice hp => simp at hp

@[simp] theorem derivesAll_choice_cons :
    DerivesAll rules (.choice (p :: qs) :: ps) w ↔
      DerivesAll rules (p :: ps) w ∨ DerivesAll rules (.choice qs :: ps) w := by
  simp only [derivesAll_cons (p := p), derivesAll_cons (p := .choice _)]
  constructor
  · rintro ⟨u, v, rfl, h, h'⟩
    cases h with
    | choice hq h =>
      rcases List.mem_cons.1 hq with rfl | hq
      · exact .inl ⟨u, v, rfl, h, h'⟩
      · exact .inr ⟨u, v, rfl, .choice hq h, h'⟩
  · rintro (⟨u, v, rfl, h, h'⟩ | ⟨u, v, rfl, h, h'⟩)
    · exact ⟨u, v, rfl, .choice (List.mem_cons_self ..) h, h'⟩
    · cases h with
      | choice hq h => exact ⟨u, v, rfl, .choice (List.mem_cons_of_mem _ hq) h, h'⟩

@[simp] theorem derivesAll_optional :
    DerivesAll rules (.optional p :: ps) w ↔
      DerivesAll rules ps w ∨ DerivesAll rules (p :: ps) w := by
  simp only [derivesAll_cons (p := p), derivesAll_cons (p := .optional p)]
  constructor
  · rintro ⟨u, v, rfl, h, h'⟩
    cases h with
    | skip => exact .inl h'
    | take h => exact .inr ⟨u, v, rfl, h, h'⟩
  · rintro (h | ⟨u, v, rfl, h, h'⟩)
    · exact ⟨[], w, rfl, .skip p, h⟩
    · exact ⟨u, v, rfl, .take h, h'⟩

theorem derivesAll_many :
    DerivesAll rules (.many p :: ps) w ↔
      DerivesAll rules ps w ∨ DerivesAll rules (p :: .many p :: ps) w := by
  constructor
  · intro h
    obtain ⟨u, v, rfl, h₁, h₂⟩ := derivesAll_cons.1 h
    cases h₁ with
    | stop => exact .inl h₂
    | again h₁ h₁' =>
      rw [List.append_assoc]
      exact .inr (.cons h₁ (.cons h₁' h₂))
  · rintro (h | h)
    · exact .cons (.stop p) h
    · obtain ⟨u, v, rfl, h₁, h₂⟩ := derivesAll_cons.1 h
      obtain ⟨v, w, rfl, h₂, h₃⟩ := derivesAll_cons.1 h₂
      rw [← List.append_assoc]
      exact .cons (.again h₁ h₂) h₃

end

end ScriptCheck
