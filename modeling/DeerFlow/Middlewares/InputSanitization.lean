import DeerFlow.Lib.Escaping
import DeerFlow.Lib.TextLines

/-! The input guardrail. Blocked tags are escaped, and the tokens that mark the bounds of the user's
input are replaced by forms that only look like them. -/

namespace DeerFlow.Middlewares
open Scan

/-- What `\b` tells apart, which is known for ASCII. -/
structure WordClass where
  isWord : Char → Bool
  ascii : ∀ c : Char, c.toNat < 128 → isWord c = (c.isAlphanum || c = '_')

/-- `\b` where only ASCII letters make words. -/
def asciiWords : WordClass where
  isWord c := c.isAlphanum || c = '_'
  ascii _ _ := rfl

/-- `\b` between two texts. -/
def WordClass.boundary (W : WordClass) (before after : Text) : Bool :=
  before.getLast?.any W.isWord != after.head?.any W.isWord

/-- `sorted(_BLOCKED_TAG_NAMES)`. -/
def blockedTagNames : List Text :=
  ["analysis".toList, "current_date".toList, "ignore".toList, "important".toList,
    "instruction".toList, "memory".toList, "override".toList, "prompt".toList, "role".toList,
    "skill_system".toList, "subagent_system".toList, "system".toList, "system-reminder".toList,
    "think".toList, "todo_list_system".toList, "uploaded_files".toList]

/-- The letter that `re.IGNORECASE` takes a character for. -/
def foldCase (c : Char) : Char :=
  if c = 'İ' ∨ c = 'ı' then 'i'
  else if c = 'ſ' then 's'
  else if c = '\u212a' then 'k'
  else c.toLower

/-- `\s*/?\s*`. -/
def afterSlash (s : Text) : Text :=
  match s.dropWhile isSpace with
  | '/' :: rest => rest.dropWhile isSpace
  | rest => rest

def opensTag (W : WordClass) (s : Text) : Bool :=
  let body := afterSlash s
  blockedTagNames.any fun name =>
    name.isPrefixOf (body.map foldCase) &&
      W.boundary (body.take name.length) (body.drop name.length)

/-- `_BLOCKED_TAG_PATTERN`: a tag ends at its `>` or at the end of the text. -/
def blockedTag (W : WordClass) : Pattern := fun s =>
  match s with
  | '<' :: rest =>
    if opensTag W rest then some (s.takeWhile (· ≠ '>') ++ (s.dropWhile (· ≠ '>')).take 1)
    else none
  | _ => none

def escapeChar (c : Char) : Text :=
  if c = '<' then "&lt;".toList
  else if c = '>' then "&gt;".toList
  else [c]

def escapeTag (tag : Text) : Text := tag.flatMap escapeChar

def userInputBegin : Text := "--- BEGIN USER INPUT ---".toList

def userInputEnd : Text := "--- END USER INPUT ---".toList

def neutralizedBegin : Text := "[BEGIN USER INPUT]".toList

def neutralizedEnd : Text := "[END USER INPUT]".toList

/-- `_BOUNDARY_TOKEN_RE`. -/
def boundaryToken : Pattern := fun s =>
  if userInputBegin.isPrefixOf s then some userInputBegin
  else if userInputEnd.isPrefixOf s then some userInputEnd
  else none

def neutralForm (token : Text) : Text :=
  if token = userInputBegin then neutralizedBegin else neutralizedEnd

def neutralizeBoundaryTokens (text : Text) : Text := subst boundaryToken neutralForm text

def escapeTags (W : WordClass) (text : Text) : Text := subst (blockedTag W) escapeTag text

def neutralizeUntrustedTags (W : WordClass) (text : Text) : Text :=
  if stripSpace text = [] then text
  else neutralizeBoundaryTokens (escapeTags W text)

/-- `text[len(_USER_INPUT_BEGIN) : -len(_USER_INPUT_END)]`. -/
def innerText (text : Text) : Text :=
  (text.take (text.length - userInputEnd.length)).drop userInputBegin.length

def checkUserContent (W : WordClass) (text : Text) : Text :=
  if stripSpace text = [] then text
  else
    let text := escapeTags W text
    if userInputBegin.isPrefixOf text && userInputEnd.isSuffixOf text then
      let inner := innerText text
      let neutralizedInner := neutralizeBoundaryTokens inner
      if neutralizedInner = inner then text
      else userInputBegin ++ neutralizedInner ++ userInputEnd
    else
      userInputBegin ++ '\n' :: neutralizeBoundaryTokens text ++ '\n' :: userInputEnd

end DeerFlow.Middlewares
