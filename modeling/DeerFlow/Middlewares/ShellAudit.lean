import DeerFlow.Lib.Regex
import DeerFlow.Lib.Words
import DeerFlow.Middlewares.InputSanitization

/-! The audit of shell commands. A command is searched as a whole for what is of high risk, and
then part by part, each part also as the words that a shell would make of it. -/

namespace DeerFlow.Middlewares.ShellAudit
open Regex

section Patterns

def lit (text : String) : Regex := Regex.lit text.toList

def nonSpace (c : Char) : Bool := !isSpace c

/-- `.`. -/
def dot (c : Char) : Bool := c ≠ '\n'

/-- The only pattern that is anchored at the end. -/
def removesRoot : Regex :=
  seqs [lit "rm", plus isSpace, lit "-", many nonSpace, lit "r", many nonSpace, plus isSpace,
    alts (seqs [lit "/", opt (lit "*")]) [seqs [lit "~", opt (lit "/"), opt (lit "*")],
      seqs [lit "/home", boundary], seqs [lit "/root", boundary]], many isSpace, atEnd]

/-- `_HIGH_RISK_PATTERNS`, less the first one. -/
def otherHighRiskPatterns : List Regex :=
  [seqs [lit "dd", plus isSpace, lit "if="],
    lit "mkfs",
    seqs [lit "cat", plus isSpace, lit "/etc/shadow"],
    seqs [plus (· = '>'), many isSpace, lit "/etc/"],
    seqs [lit "|", many isSpace, opt (lit "ba"), lit "sh", boundary],
    seqs [char fun c => c = '\x60' || c = '$', opt (lit "("), many isSpace,
      alts (lit "curl") [lit "wget", lit "bash", lit "sh", lit "python", lit "ruby", lit "perl",
        lit "base64"]],
    seqs [lit "base64", plus isSpace, many dot, lit "-d", many dot, lit "|"],
    seqs [plus (· = '>'), many isSpace, alts (lit "/usr/bin/") [lit "/bin/", lit "/sbin/"]],
    seqs [plus (· = '>'), many isSpace, lit "~", opt (lit "/"), lit ".",
      alts (lit "bashrc") [lit "profile", lit "zshrc", lit "bash_profile"]],
    seqs [lit "/proc/", plus (· ≠ '/'), lit "/environ"],
    seqs [boundary, alts (lit "LD_PRELOAD") [lit "LD_LIBRARY_PATH"], many isSpace, lit "="],
    lit "/dev/tcp/",
    seqs [plus nonSpace, lit "()", many isSpace, lit "\x7b", many (· ≠ '\x7d'), lit "|",
      many isSpace, plus nonSpace, many isSpace, lit "&"],
    seqs [lit "while", plus isSpace, lit "true", many dot, lit "&", many isSpace, lit "done"]]

def highRiskPatterns : List Regex := removesRoot :: otherHighRiskPatterns

def mediumRiskPatterns : List Regex :=
  [seqs [lit "chmod", plus isSpace, lit "777"],
    seqs [lit "pip", opt (lit "3"), plus isSpace, lit "install"],
    seqs [lit "apt", opt (lit "-get"), plus isSpace, lit "install"],
    seqs [boundary, alts (lit "sudo") [lit "su"], boundary],
    seqs [boundary, lit "PATH", many isSpace, lit "="]]

end Patterns

section Quoting

/-- Where a scan stands in the quotes of a command. -/
structure Quotes where
  inSingleQuote : Bool
  inDoubleQuote : Bool
  escaping : Bool
  deriving DecidableEq

def Quotes.closed : Quotes := ⟨false, false, false⟩

def Quotes.step (q : Quotes) (c : Char) : Quotes :=
  if q.escaping then { q with escaping := false }
  else if c = '\\' && !q.inSingleQuote then { q with escaping := true }
  else if c = '\'' && !q.inDoubleQuote then { q with inSingleQuote := !q.inSingleQuote }
  else if c = '"' && !q.inSingleQuote then { q with inDoubleQuote := !q.inDoubleQuote }
  else q

/-- What stands between the operators, and the quotes at the end. The second character of an
operator is skipped. -/
def scanSegments (q : Quotes) (skip : Bool) (current : Text) : Text → List Text × Quotes
  | [] => ([current], q)
  | c :: rest =>
    if skip then scanSegments q false current rest
    else if q = .closed ∧ (c = '&' ∨ c = '|') ∧ rest.head? = some c then
      let scan := scanSegments q true [] rest
      (current :: scan.1, scan.2)
    else if q = .closed ∧ c = ';' then
      let scan := scanSegments q false [] rest
      (current :: scan.1, scan.2)
    else scanSegments (q.step c) false (current ++ [c]) rest

/-- `_split_compound_command`. -/
def splitCompoundCommand (command : Text) : List Text :=
  let scan := scanSegments .closed false [] command
  if scan.2 ≠ .closed then [command]
  else
    let parts := (scan.1.map stripSpace).filter (· ≠ [])
    if parts = [] then [command] else parts

end Quoting

section Shlex

structure Lexer where
  quotes : Quotes
  tokens : List Text
  /-- The token that is being read, if any. -/
  token : Option Text

def Lexer.init : Lexer := ⟨.closed, [], none⟩

def isShlexSpace (c : Char) : Bool := c = ' ' || c = '\t' || c = '\r' || c = '\n'

/-- What a character adds to its token. In double quotes a backslash escapes only a double quote
and itself. -/
def Quotes.adds (q : Quotes) (c : Char) : Text :=
  if q.escaping then if q.inDoubleQuote && c ≠ '"' && c ≠ '\\' then ['\\', c] else [c]
  else if q.step c = q then [c]
  else []

def Lexer.step (s : Lexer) (c : Char) : Lexer :=
  if s.quotes = .closed && isShlexSpace c then
    { s with tokens := s.tokens ++ s.token.toList, token := none }
  else
    { s with
      quotes := s.quotes.step c
      token := some (s.token.getD [] ++ s.quotes.adds c) }

/-- `shlex.split`, where it does not raise. -/
def shlexSplit (command : Text) : Option (List Text) :=
  let s := command.foldl Lexer.step .init
  if s.quotes = .closed then some (s.tokens ++ s.token.toList) else none

end Shlex

inductive Verdict where
  | pass
  | warn
  | block
  deriving DecidableEq

def Verdict.severity : Verdict → Nat
  | .pass => 0
  | .warn => 1
  | .block => 2

section Classify
variable (W : WordClass)

def highRisk (text : Text) : Bool := highRiskPatterns.any fun r => r.search W.isWord text

def mediumRisk (text : Text) : Bool := mediumRiskPatterns.any fun r => r.search W.isWord text

/-- `_classify_single_command`. -/
def classifySingleCommand (command : Text) : Verdict :=
  let normalized := joinWords command
  if highRisk W normalized then .block
  else if (shlexSplit command).any fun tokens => highRisk W ([' '].intercalate tokens) then .block
  else if mediumRisk W normalized then .warn
  else .pass

def worstVerdict (worst : Verdict) : List Text → Verdict
  | [] => worst
  | sub :: subs =>
    match classifySingleCommand W sub with
    | .block => .block
    | .warn => worstVerdict .warn subs
    | .pass => worstVerdict worst subs

/-- `_classify_command`. -/
def classifyCommand (command : Text) : Verdict :=
  if highRisk W (joinWords command) then .block
  else worstVerdict W .pass (splitCompoundCommand command)

end Classify

end DeerFlow.Middlewares.ShellAudit
