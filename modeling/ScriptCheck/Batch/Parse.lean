import ScriptCheck.Batch.Syntax

/-!
# Reading batches

A batch is read one complete command at a time: what comes in front of a fault is carried out.
Every function that reads takes fuel, which the length of the text bounds, and the parser keeps
one token ahead of what it has understood.
-/

namespace ScriptCheck.Batch

/-! ### Faults -/

inductive SyntaxFault
  | openQuote
  | openBackquote
  | openBrace
  | openNumber
  | badLoopVariable
  | badFunctionName
  | tooDeep
  | unexpected (found : String) (expected : Option String)
deriving DecidableEq, Repr

def SyntaxFault.message : SyntaxFault → String
  | openQuote => "Unterminated quoted string"
  | openBackquote => "EOF in backquote substitution"
  | openBrace => "Missing '\x7d'"
  | openNumber => "Missing '))'"
  | badLoopVariable => "Bad for loop variable"
  | badFunctionName => "Bad function name"
  | tooDeep => "too deep"
  | unexpected found .none => found ++ " unexpected"
  | unexpected found (some expected) => found ++ " unexpected (expecting \"" ++ expected ++ "\")"

structure SyntaxError where
  fault : SyntaxFault
  line : Nat
deriving Repr

/-! ### Characters and tokens -/

/-- The text that is still to be read. -/
structure Reader where
  rest : Octets
  line : Nat
  /-- Lines that were taken out behind the end of the present one. -/
  held : Nat

namespace Reader

def ofText (text : Octets) : Reader :=
  ⟨text, 1, 0⟩

def fail {α : Type} (r : Reader) (fault : SyntaxFault) : Except SyntaxError α :=
  .error ⟨fault, r.line⟩

/-- Goes past some characters. -/
def skip (r : Reader) (count : Nat) : Reader :=
  { r with rest := r.rest.drop count, line := r.line + (r.rest.take count).count '\n' }

/-- The number of blanks and continued lines in front of a text. -/
def blanks : Octets → Nat
  | '\\' :: '\n' :: rest => blanks rest + 2
  | c :: rest => if Octets.isBlank c then blanks rest + 1 else 0
  | [] => 0

end Reader

inductive Token
  | word (w : Word)
  | operator (text : String)
  /-- The number in front of a redirection. -/
  | fileNumber (n : Nat)
  | lineEnd
  | textEnd

/-- The operators; where two of them fit, the earlier one is meant. -/
def operators : List String :=
  ["<<-", "&&", "||", ";;", "<<", ">>", "<&", ">&", "<>", ">|", "|", "&", ";", "(", ")", "<", ">"]

/-- The words that only begin a command as a part of a compound one. -/
def closers : List String :=
  ["then", "elif", "else", "fi", "do", "done", "esac", "\x7d"]

def openers : List String :=
  ["if", "while", "until", "for", "case", "in", "!", "\x7b"]

namespace Token

def spells (t : Token) (text : String) : Bool :=
  match t with
  | word w => plain? w == some text.toList
  | _ => false

def isOperator (t : Token) (text : String) : Bool :=
  match t with
  | operator o => o == text
  | _ => false

def isLineEnd : Token → Bool
  | lineEnd => true
  | _ => false

/-- Nothing can begin here that a list of commands goes on with. -/
def endsList (t : Token) : Bool :=
  match t with
  | textEnd => true
  | word _ => closers.any t.spells
  | operator o => o == ")" || o == ";;"
  | _ => false

def describe (t : Token) : String :=
  match t with
  | word _ =>
    match (closers ++ openers).find? t.spells with
    | some text => "\"" ++ text ++ "\""
    | none => "word"
  | operator o => "\"" ++ o ++ "\""
  | fileNumber _ => "redirection"
  | lineEnd => "newline"
  | textEnd => "end of file"

end Token

/-- The next token, and the text behind it. -/
structure Ahead where
  token : Token
  rest : Reader

def Ahead.unexpected {α : Type} (a : Ahead) (expected : Option String) : Except SyntaxError α :=
  a.rest.fail (.unexpected a.token.describe expected)

/-! ### Words -/

/-- What a piece of text is part of, and so where it ends. -/
inductive Mode
  /-- A word, up to a blank or an operator. -/
  | bare
  /-- A text up to a quotation mark. -/
  | quoted
  /-- A document, up to its end. -/
  | document
  /-- A word in braces. -/
  | operand (inQuotes : Bool)
  /-- An expression up to two brackets, with so many brackets open. -/
  | expression (depth : Nat)
deriving DecidableEq, Repr

namespace Mode

def isQuoted : Mode → Bool
  | bare => false
  | operand inQuotes => inQuotes
  | _ => true

/-- The characters in front of which a backslash no longer stands for itself. -/
def escapes (mode : Mode) (c : Char) : Bool :=
  !mode.isQuoted || c = '$' || c = '\x60' || c = '\\' ||
    (c = '"' && mode ≠ document) || (c = '\x7d' && mode = operand true)

/-- The mode behind an opening bracket. -/
def deeper : Mode → Mode
  | expression depth => expression (depth + 1)
  | mode => mode

/-- The mode behind a closing bracket. -/
def shallower : Mode → Mode
  | expression depth => expression (depth - 1)
  | mode => mode

end Mode

/-- What a character does to the text that it is in. -/
inductive Role
  | letter
  /-- Ends the text; a character that does so may be the first one behind it. -/
  | ends (belongs : Bool)
  | singleQuote
  | doubleQuote
  | opens
  | closes
deriving DecidableEq, Repr

def endsWord (c : Char) : Bool :=
  c = ' ' || c = '\t' || c = '\n' || c = ';' || c = '&' || c = '|' || c = '<' || c = '>' ||
    c = '(' || c = ')'

def Mode.role (mode : Mode) (c : Char) : Role :=
  match mode with
  | .bare =>
    if endsWord c then .ends false
    else if c = '\'' then .singleQuote
    else if c = '"' then .doubleQuote
    else .letter
  | .quoted => if c = '"' then .ends true else .letter
  | .document => .letter
  | .operand inQuotes =>
    if c = '\x7d' then .ends true
    else if c = '\'' && !inQuotes then .singleQuote
    else if c = '"' then .doubleQuote
    else .letter
  | .expression _ => if c = '(' then .opens else if c = ')' then .closes else .letter

/-- The name in front of a text: letters, digits, or one special character. -/
def parameterName : Octets → Octets
  | [] => []
  | c :: rest =>
    if Octets.isNameStart c then c :: rest.takeWhile Octets.isNamePart
    else if c.isDigit then c :: rest.takeWhile Char.isDigit
    else if "@*#?-$!".toList.contains c then [c]
    else []

/-- The operator of a parameter in braces, and its length. -/
def useOperator (text : Octets) : Option ((Word → Use) × Nat) :=
  let rule? : Char → Option Fallback := fun c =>
    if c = '-' then some .use else if c = '=' then some .assign
    else if c = '?' then some .refuse else if c = '+' then some .replace else none
  match text with
  | ':' :: c :: _ => (rule? c).map fun rule => (.fallback rule true, 2)
  | '%' :: '%' :: _ => some (.trim true true, 2)
  | '%' :: _ => some (.trim true false, 1)
  | '#' :: '#' :: _ => some (.trim false true, 2)
  | '#' :: _ => some (.trim false false, 1)
  | c :: _ => (rule? c).map fun rule => (.fallback rule false, 1)
  | [] => none

/-- The text up to a backquote, and how long it is with its backslashes. -/
def backquoted (quoted : Bool) : Octets → Option (Octets × Nat)
  | [] => none
  | '\x60' :: _ => some ([], 0)
  | '\\' :: c :: rest =>
    let kept := if c = '\x60' || c = '\\' || c = '$' || (quoted && c = '"') then [c] else ['\\', c]
    (backquoted quoted rest).map fun (text, n) => (kept ++ text, n + 2)
  | c :: rest => (backquoted quoted rest).map fun (text, n) => (c :: text, n + 1)

/-- The pieces for what stands between quotation marks. All arguments at once may be no word. -/
def quotedParts (w : Word) : Word :=
  match w with
  | [.parameter ['@'] .value true] => w
  | _ => .quotes :: w

/-- The lines of a document, and the text behind it. -/
def takeDocument (delimiter : Octets) (stripTabs : Bool) (text : Octets) :
    Octets × Nat × Octets :=
  let strip := fun line : Octets => if stripTabs then line.dropWhile (· = '\t') else line
  let pieces := Octets.split (· = '\n') text
  let content := pieces.takeWhile (strip · ≠ delimiter)
  match pieces.drop content.length with
  | _ :: rest =>
    (Octets.unlines (content.map strip), content.length + 1, Octets.join ['\n'] rest)
  | [] => (Octets.join ['\n'] (content.map strip), content.length, [])

/-! ### The parser -/

def isRedirection (text : String) : Bool :=
  text.startsWith "<" || text.startsWith ">"

/-- The redirection that an operator stands for. -/
def redirect (operator : String) (file : Option Nat) (w : Word) : Redirect :=
  let file := file.getD (if operator.startsWith "<" then 0 else 1)
  match operator with
  | "<" => .openFile file .read w
  | ">>" => .openFile file .append w
  | ">|" => .openFile file .replace w
  | "<>" => .openFile file .update w
  | "<&" => .duplicate file w
  | ">&" => .duplicate file w
  | _ => .openFile file .write w

mutual

/-- The pieces of a text up to its end, with those in front of it in reverse. -/
def readParts : Nat → Mode → Word → Reader → Except SyntaxError (Word × Reader)
  | 0, _, _, r => r.fail .tooDeep
  | n + 1, mode, before, r =>
    match r.rest with
    | [] =>
      match mode with
      | .bare => .ok (before.reverse, r)
      | .document => .ok (before.reverse, r)
      | .quoted => r.fail .openQuote
      | .operand _ => r.fail .openBrace
      | .expression _ => r.fail .openNumber
    | '\\' :: '\n' :: _ => readParts n mode before (r.skip 2)
    | '\\' :: c :: _ =>
      if mode.escapes c then readParts n mode (.letter c true :: before) (r.skip 2)
      else readParts n mode (.letter '\\' true :: before) (r.skip 1)
    | '$' :: _ => do
      let (part, r) ← readDollar n mode.isQuoted (r.skip 1)
      readParts n mode (part :: before) r
    | '\x60' :: rest => do
      let some (text, length) := backquoted mode.isQuoted rest | r.fail .openBackquote
      let a ← readToken n ⟨text, r.line, 0⟩
      let (c, a) ← readSequence n false a
      match a.token with
      | .textEnd => readParts n mode (.output c mode.isQuoted :: before) (r.skip (length + 2))
      | _ => a.unexpected none
    | c :: rest =>
      match mode.role c with
      | .letter => readParts n mode (.letter c mode.isQuoted :: before) (r.skip 1)
      | .ends belongs => .ok (before.reverse, r.skip (if belongs then 1 else 0))
      | .singleQuote =>
        let text := rest.takeWhile (· ≠ '\'')
        if text.length = rest.length then r.fail .openQuote
        else
          readParts n mode ((text.map (Part.letter · true)).reverse ++ .quotes :: before)
            (r.skip (text.length + 2))
      | .doubleQuote => do
        let (w, r) ← readParts n .quoted [] (r.skip 1)
        readParts n mode ((quotedParts w).reverse ++ before) r
      | .opens => readParts n mode.deeper (.letter c true :: before) (r.skip 1)
      | .closes =>
        if mode ≠ .expression 0 then
          readParts n mode.shallower (.letter c true :: before) (r.skip 1)
        else if rest.head? = some ')' then .ok (before.reverse, r.skip 2)
        else r.fail .openNumber

/-- The piece behind a dollar sign. -/
def readDollar : Nat → Bool → Reader → Except SyntaxError (Part × Reader)
  | 0, _, r => r.fail .tooDeep
  | n + 1, quoted, r =>
    match r.rest with
    | '(' :: '(' :: _ => do
      let (w, r) ← readParts n (.expression 0) [] (r.skip 2)
      return (.number w quoted, r)
    | '(' :: _ => do
      let a ← readToken n (r.skip 1)
      let (c, a) ← readSequence n false a
      if a.token.isOperator ")" then return (.output c quoted, a.rest)
      a.unexpected (some ")")
    | '\x7b' :: _ => readBraces n quoted (r.skip 1)
    | text =>
      let name := parameterName text
      let name := if (name.headD 'a').isDigit then name.take 1 else name
      if name = [] then .ok (.letter '$' quoted, r)
      else .ok (.parameter name .value quoted, r.skip name.length)

/-- The parameter in braces. -/
def readBraces : Nat → Bool → Reader → Except SyntaxError (Part × Reader)
  | 0, _, r => r.fail .tooDeep
  | n + 1, quoted, r => do
    let counted := parameterName r.rest.tail
    if r.rest.head? = some '#' && counted ≠ [] &&
        (r.rest.drop (counted.length + 1)).head? = some '\x7d' then
      return (.parameter counted .length quoted, r.skip (counted.length + 2))
    let name := parameterName r.rest
    let text := r.rest.drop name.length
    if name ≠ [] && text.head? = some '\x7d' then
      return (.parameter name .value quoted, r.skip (name.length + 1))
    match useOperator text with
    | some (use, length) =>
      if name ≠ [] then
        let isTrim := match use [] with
          | .trim _ _ _ => true
          | _ => false
        let (w, r) ← readParts n (.operand (quoted && !isTrim)) [] (r.skip (name.length + length))
        return (.parameter name (use w) quoted, r)
      let (_, r) ← readParts n (.operand quoted) [] r
      return (.parameter name .malformed quoted, r)
    | none =>
      let (_, r) ← readParts n (.operand quoted) [] r
      return (.parameter name .malformed quoted, r)

/-- The next token. -/
def readToken : Nat → Reader → Except SyntaxError Ahead
  | 0, r => r.fail .tooDeep
  | n + 1, r => do
    let r := r.skip (Reader.blanks r.rest)
    match r.rest with
    | [] => return ⟨.textEnd, r⟩
    | '\n' :: rest => return ⟨.lineEnd, ⟨rest, r.line + 1 + r.held, 0⟩⟩
    | '#' :: rest => readToken n { r with rest := rest.dropWhile (· ≠ '\n') }
    | _ =>
      match operators.find? fun o => o.toList.isPrefixOf r.rest with
      | some o => return ⟨.operator o, r.skip o.length⟩
      | none =>
        let (w, r) ← readParts n .bare [] r
        match (plain? w).bind Octets.nat?, r.rest.head? with
        | some file, some '<' => return ⟨.fileNumber file, r⟩
        | some file, some '>' => return ⟨.fileNumber file, r⟩
        | _, _ => return ⟨.word w, r⟩

def skipLines : Nat → Ahead → Except SyntaxError Ahead
  | 0, a => a.rest.fail .tooDeep
  | n + 1, a => do
    if a.token.isLineEnd then skipLines n (← readToken n a.rest) else return a

/-- Goes past a word that must be there. -/
def expect : Nat → String → Ahead → Except SyntaxError Ahead
  | 0, _, a => a.rest.fail .tooDeep
  | n + 1, word, a =>
    if a.token.spells word || a.token.isOperator word then readToken n a.rest
    else a.unexpected (some word)

/-- Commands up to something else, or up to the end of the line. -/
def readSequence : Nat → Bool → Ahead → Except SyntaxError (Command × Ahead)
  | 0, _, a => a.rest.fail .tooDeep
  | n + 1, inLine, a => do
    let a ← if inLine then pure a else skipLines n a
    if a.token.endsList || a.token.isLineEnd then return (.nothing, a)
    let (c, a) ← readAndOr n a
    let isBackground := a.token.isOperator "&"
    let c := if isBackground then .background c else c
    if isBackground || a.token.isOperator ";" || (a.token.isLineEnd && !inLine) then
      let (rest, a) ← readSequence n inLine (← readToken n a.rest)
      match rest with
      | .nothing => return (c, a)
      | _ => return (.sequence c rest, a)
    return (c, a)

/-- Commands of which there must be one, unless the text ends. -/
def readBlock : Nat → Ahead → Except SyntaxError (Command × Ahead)
  | 0, a => a.rest.fail .tooDeep
  | n + 1, a => do
    let (c, a) ← readSequence n false a
    match c, a.token with
    | .nothing, .textEnd => return (c, a)
    | .nothing, _ => a.unexpected none
    | _, _ => return (c, a)

def readAndOr : Nat → Ahead → Except SyntaxError (Command × Ahead)
  | 0, a => a.rest.fail .tooDeep
  | n + 1, a => do
    let (c, a) ← readPipeline n a
    readAndOrTail n c a

def readAndOrTail : Nat → Command → Ahead → Except SyntaxError (Command × Ahead)
  | 0, _, a => a.rest.fail .tooDeep
  | n + 1, first, a => do
    let isAnd := a.token.isOperator "&&"
    if isAnd || a.token.isOperator "||" then
      let (second, a) ← readPipeline n (← skipLines n (← readToken n a.rest))
      readAndOrTail n (if isAnd then .both first second else .either first second) a
    else return (first, a)

def readPipeline : Nat → Ahead → Except SyntaxError (Command × Ahead)
  | 0, a => a.rest.fail .tooDeep
  | n + 1, a => do
    let isNegated := a.token.spells "!"
    let a ← if isNegated then readToken n a.rest else pure a
    let (c, a) ← readCommand n a
    let (stages, a) ← readStages n a
    let c := if stages.isEmpty then c else .pipeline (c :: stages)
    return (if isNegated then .negation c else c, a)

def readStages : Nat → Ahead → Except SyntaxError (List Command × Ahead)
  | 0, a => a.rest.fail .tooDeep
  | n + 1, a => do
    if a.token.isOperator "|" then
      let (c, a) ← readCommand n (← skipLines n (← readToken n a.rest))
      let (stages, a) ← readStages n a
      return (c :: stages, a)
    return ([], a)

def readCommand : Nat → Ahead → Except SyntaxError (Command × Ahead)
  | 0, a => a.rest.fail .tooDeep
  | n + 1, a => do
    let line := a.rest.line
    let (c, a) ←
      if a.token.isOperator "(" then
        let (c, a) ← readBlock n (← readToken n a.rest)
        pure (Command.subshell c, ← expect n ")" a)
      else if a.token.spells "\x7b" then
        let (c, a) ← readBlock n (← readToken n a.rest)
        pure (Command.group c, ← expect n "\x7d" a)
      else if a.token.spells "if" then readChoice n (← readToken n a.rest)
      else if a.token.spells "while" then readLoop n false (← readToken n a.rest)
      else if a.token.spells "until" then readLoop n true (← readToken n a.rest)
      else if a.token.spells "for" then readFor n (← readToken n a.rest)
      else if a.token.spells "case" then readCase n (← readToken n a.rest)
      else if a.token.endsList || a.token.spells "!" then a.unexpected none
      else return ← readSimple n line [] [] [] a
    let (redirects, a) ← readRedirects n a
    return (if redirects.isEmpty then c else .redirected line c redirects, a)

def readChoice : Nat → Ahead → Except SyntaxError (Command × Ahead)
  | 0, a => a.rest.fail .tooDeep
  | n + 1, a => do
    let (condition, a) ← readBlock n a
    let (yes, a) ← readBlock n (← expect n "then" a)
    if a.token.spells "elif" then
      let (no, a) ← readChoice n (← readToken n a.rest)
      return (.choice condition yes no, a)
    if a.token.spells "else" then
      let (no, a) ← readBlock n (← readToken n a.rest)
      return (.choice condition yes no, ← expect n "fi" a)
    return (.choice condition yes .nothing, ← expect n "fi" a)

def readLoop : Nat → Bool → Ahead → Except SyntaxError (Command × Ahead)
  | 0, _, a => a.rest.fail .tooDeep
  | n + 1, untilTrue, a => do
    let (condition, a) ← readBlock n a
    let (body, a) ← readBlock n (← expect n "do" a)
    return (.loop untilTrue condition body, ← expect n "done" a)

def readFor : Nat → Ahead → Except SyntaxError (Command × Ahead)
  | 0, a => a.rest.fail .tooDeep
  | n + 1, a => do
    let name := match a.token with
      | .word w => (plain? w).getD []
      | _ => []
    if !Octets.isName name then a.rest.fail .badLoopVariable
    let a ← readToken n a.rest
    let a' ← skipLines n a
    let (words, a) ←
      if a'.token.spells "in" then
        let (words, a) ← readWords n (← readToken n a'.rest)
        if a.token.isOperator ";" || a.token.isLineEnd then pure (some words, ← readToken n a.rest)
        else a.unexpected none
      else if a.token.isOperator ";" then pure (none, ← readToken n a.rest)
      else pure (none, a)
    let (body, a) ← readBlock n (← expect n "do" (← skipLines n a))
    return (.forEach name words body, ← expect n "done" a)

def readWords : Nat → Ahead → Except SyntaxError (List Word × Ahead)
  | 0, a => a.rest.fail .tooDeep
  | n + 1, a => do
    match a.token with
    | .word w =>
      let (words, a) ← readWords n (← readToken n a.rest)
      return (w :: words, a)
    | _ => return ([], a)

def readCase : Nat → Ahead → Except SyntaxError (Command × Ahead)
  | 0, a => a.rest.fail .tooDeep
  | n + 1, a => do
    match a.token with
    | .word w =>
      let a ← expect n "in" (← skipLines n (← readToken n a.rest))
      let (arms, a) ← readArms n a
      return (.select w arms, a)
    | _ => a.unexpected none

def readArms : Nat → Ahead → Except SyntaxError (List Arm × Ahead)
  | 0, a => a.rest.fail .tooDeep
  | n + 1, a => do
    let a ← skipLines n a
    if a.token.spells "esac" then return ([], ← readToken n a.rest)
    let a ← if a.token.isOperator "(" then readToken n a.rest else pure a
    let (patterns, a) ← readPatterns n a
    let (body, a) ← readSequence n false (← expect n ")" a)
    if a.token.isOperator ";;" then
      let (arms, a) ← readArms n (← readToken n a.rest)
      return (⟨patterns, body⟩ :: arms, a)
    if a.token.spells "esac" then return ([⟨patterns, body⟩], ← readToken n a.rest)
    a.unexpected (some ";;")

def readPatterns : Nat → Ahead → Except SyntaxError (List Word × Ahead)
  | 0, a => a.rest.fail .tooDeep
  | n + 1, a => do
    match a.token with
    | .word w =>
      let a ← readToken n a.rest
      if a.token.isOperator "|" then
        let (patterns, a) ← readPatterns n (← readToken n a.rest)
        return (w :: patterns, a)
      return ([w], a)
    | _ => a.unexpected (some ")")

/-- The redirections in front. -/
def readRedirects : Nat → Ahead → Except SyntaxError (List Redirect × Ahead)
  | 0, a => a.rest.fail .tooDeep
  | n + 1, a => do
    let more (file : Option Nat) (operator : String) (r : Reader) :
        Except SyntaxError (List Redirect × Ahead) := do
      let (x, a) ← readRedirect n file operator r
      let (xs, a) ← readRedirects n a
      return (x :: xs, a)
    match a.token with
    | .operator o => if isRedirection o then more none o a.rest else return ([], a)
    | .fileNumber file =>
      let a ← readToken n a.rest
      match a.token with
      | .operator o => more (some file) o a.rest
      | _ => a.unexpected none
    | _ => return ([], a)

/-- What stands behind the operator of a redirection. -/
def readRedirect : Nat → Option Nat → String → Reader → Except SyntaxError (Redirect × Ahead)
  | 0, _, _, r => r.fail .tooDeep
  | n + 1, file, operator, r => do
    let a ← readToken n r
    let .word w := a.token | a.unexpected none
    if operator != "<<" && operator != "<<-" then
      return (redirect operator file w, ← readToken n a.rest)
    let r := a.rest
    match Octets.cutLine r.rest with
    | (_, none) => return (.document (file.getD 0) [], ← readToken n r)
    | (line, some text) =>
      let (delimiter, isQuoted) := spelling w
      let (content, length, rest) := takeDocument delimiter (operator == "<<-") text
      let (w, _) ←
        if isQuoted then pure (content.map (Part.letter · true), r)
        else readParts n .document [] ⟨content, r.line + 1, 0⟩
      let r := { r with rest := line ++ '\n' :: rest, held := r.held + length }
      return (.document (file.getD 0) w, ← readToken n r)

/-- A simple command, with what was read of it in reverse, or the definition of a function. -/
def readSimple : Nat → Nat → List Assignment → List Word → List Redirect → Ahead →
    Except SyntaxError (Command × Ahead)
  | 0, _, _, _, _, a => a.rest.fail .tooDeep
  | n + 1, line, assignments, words, redirects, a => do
    let finish : Except SyntaxError (Command × Ahead) :=
      if assignments.isEmpty && words.isEmpty && redirects.isEmpty then a.unexpected none
      else .ok (.simple line assignments.reverse words.reverse redirects.reverse, a)
    match a.token with
    | .word w =>
      let next ← readToken n a.rest
      match if words.isEmpty then assignment? w else none with
      | some x => readSimple n line (x :: assignments) words redirects next
      | none => readSimple n line assignments (w :: words) redirects next
    | .fileNumber file =>
      let a ← readToken n a.rest
      let .operator o := a.token | a.unexpected none
      let (x, a) ← readRedirect n (some file) o a.rest
      readSimple n line assignments words (x :: redirects) a
    | .operator o =>
      if isRedirection o then
        let (x, a) ← readRedirect n none o a.rest
        readSimple n line assignments words (x :: redirects) a
      else if o == "(" && words.length = 1 && assignments.isEmpty && redirects.isEmpty then
        let a ← expect n ")" (← readToken n a.rest)
        match plain? (words.headD []) with
        | some name =>
          if !Octets.isName name then a.rest.fail .badFunctionName
          let (body, a) ← readCommand n (← skipLines n a)
          return (.define name body, a)
        | none => a.rest.fail .badFunctionName
      else finish
    | _ => finish

end

/-- The next complete command, if the text holds one more. -/
def Reader.next (r : Reader) : Except SyntaxError (Option Command × Reader) := do
  let fuel := 16 * (r.rest.length + 4)
  let a ← skipLines fuel (← readToken fuel r)
  match a.token with
  | .textEnd => return (none, a.rest)
  | _ =>
    let (c, a) ← readSequence fuel true a
    match a.token with
    | .lineEnd => return (some c, a.rest)
    | .textEnd => return (some c, a.rest)
    | _ => a.unexpected none

end ScriptCheck.Batch
