import TagTemplate.Yaml.Token

/-!
# The structure of a settings text

A text holds at most one document, a node that is a scalar, a sequence or a mapping. A marker may
stand in front of it and another one behind it. A place where a node is due and none stands holds
the empty plain scalar.
-/

namespace TagTemplate.Yaml

inductive Node
  | scalar (plain : Bool) (text : List Char)
  | sequence (items : List Node)
  | mapping (entries : List (Node × Node))

namespace Node

def empty : Node := scalar true []

/-- Where a node stands: in brackets, in a block, or in a block as a key or its value, where it
may be a list at the column of the key. -/
inductive Setting
  | flow
  | block
  | entry
  deriving DecidableEq

/-- Reads a node unless one of the tokens that end its place is next. -/
def orEmpty (enders : List Token) (read : List Token → Option (Node × List Token))
    (tokens : List Token) : Option (Node × List Token) :=
  if tokens.head?.any enders.contains then some (empty, tokens) else read tokens

/-- Reads a node behind a value token, or none if there is no such token. -/
def valueOrEmpty (enders : List Token) (read : List Token → Option (Node × List Token)) :
    List Token → Option (Node × List Token)
  | .value :: tokens => orEmpty enders read tokens
  | tokens => some (empty, tokens)

/-- The tokens that begin a node. -/
def beginnings : Setting → List Token
  | .flow => [.openBracket, .openBrace]
  | .block => [.openBracket, .openBrace, .blockSequence, .blockMapping]
  | .entry => [.openBracket, .openBrace, .blockSequence, .blockMapping, .dash]

mutual

/-- One node. The number bounds the nesting of calls, here and below. -/
def read : Nat → Setting → List Token → Option (Node × List Token)
  | 0, _, _ => none
  | n + 1, setting, tokens =>
    match tokens with
    | .scalar plain text :: rest => some (scalar plain text, rest)
    | .plainTag :: .scalar _ text :: rest => some (scalar true text, rest)
    | .plainTag :: rest =>
      if rest.head?.any (beginnings setting).contains then read n setting rest
      else some (empty, rest)
    | t :: rest =>
      if !(beginnings setting).contains t then none
      else
        match t with
        | .openBracket => do
          let (items, rest) ← bracketItems n true rest
          return (sequence items, rest)
        | .openBrace => do
          let (entries, rest) ← braceEntries n true rest
          return (mapping entries, rest)
        | .blockSequence => do
          let (items, rest) ← blockItems n rest
          return (sequence items, rest)
        | .blockMapping => do
          let (entries, rest) ← blockEntries n rest
          return (mapping entries, rest)
        | .dash => do
          let (items, rest) ← itemsAtKey n tokens
          return (sequence items, rest)
        | _ => none
    | [] => none

def blockItems : Nat → List Token → Option (List Node × List Token)
  | 0, _ => none
  | n + 1, tokens =>
    match tokens with
    | .dash :: rest => do
      let (item, rest) ← orEmpty [.dash, .blockEnd] (read n .block) rest
      let (items, rest) ← blockItems n rest
      return (item :: items, rest)
    | .blockEnd :: rest => some ([], rest)
    | _ => none

/-- The items of a list at the column of its key, which no token ends. -/
def itemsAtKey : Nat → List Token → Option (List Node × List Token)
  | 0, _ => none
  | n + 1, tokens =>
    match tokens with
    | .dash :: rest => do
      let (item, rest) ← orEmpty [.dash, .key, .value, .blockEnd] (read n .block) rest
      let (items, rest) ← itemsAtKey n rest
      return (item :: items, rest)
    | rest => some ([], rest)

def blockEntries : Nat → List Token → Option (List (Node × Node) × List Token)
  | 0, _ => none
  | n + 1, tokens =>
    let enders := [Token.key, .value, .blockEnd]
    let more (key : Node) (rest : List Token) : Option (List (Node × Node) × List Token) := do
      let (value, rest) ← valueOrEmpty enders (read n .entry) rest
      let (entries, rest) ← blockEntries n rest
      return ((key, value) :: entries, rest)
    match tokens with
    | .key :: rest => do
      let (key, rest) ← orEmpty enders (read n .entry) rest
      more key rest
    | .value :: _ => more empty tokens
    | .blockEnd :: rest => some ([], rest)
    | _ => none

/-- The items up to a closing bracket, with commas between them. An item may be a lone entry of
a mapping. -/
def bracketItems : Nat → Bool → List Token → Option (List Node × List Token)
  | 0, _, _ => none
  | n + 1, first, tokens =>
    let item : List Token → Option (List Node × List Token)
      | .closeBracket :: rest => some ([], rest)
      | .key :: rest => do
        let (key, rest) ← orEmpty [.value, .comma, .closeBracket] (read n .flow) rest
        let (value, rest) ← valueOrEmpty [.comma, .closeBracket] (read n .flow) rest
        let (items, rest) ← bracketItems n false rest
        return (mapping [(key, value)] :: items, rest)
      | tokens => do
        let (item, rest) ← read n .flow tokens
        let (items, rest) ← bracketItems n false rest
        return (item :: items, rest)
    match first, tokens with
    | true, tokens => item tokens
    | false, .comma :: rest => item rest
    | false, .closeBracket :: rest => some ([], rest)
    | false, _ => none

/-- The entries up to a closing brace, with commas between them. A key may lack its value. -/
def braceEntries : Nat → Bool → List Token → Option (List (Node × Node) × List Token)
  | 0, _, _ => none
  | n + 1, first, tokens =>
    let more (key : Node) (rest : List Token) : Option (List (Node × Node) × List Token) := do
      let (value, rest) ← valueOrEmpty [.comma, .closeBrace] (read n .flow) rest
      let (entries, rest) ← braceEntries n false rest
      return ((key, value) :: entries, rest)
    let entry : List Token → Option (List (Node × Node) × List Token)
      | .closeBrace :: rest => some ([], rest)
      | .key :: rest => do
        let (key, rest) ← orEmpty [.value, .comma, .closeBrace] (read n .flow) rest
        more key rest
      | .value :: rest => more empty (.value :: rest)
      | tokens => do
        let (key, rest) ← read n .flow tokens
        let (entries, rest) ← braceEntries n false rest
        return ((key, empty) :: entries, rest)
    match first, tokens with
    | true, tokens => entry tokens
    | false, .comma :: rest => entry rest
    | false, .closeBrace :: rest => some ([], rest)
    | false, _ => none

end

/-- The node of the only document, if there is one. -/
def ofTokens? (tokens : List Token) : Option (Option Node) :=
  match tokens with
  | [] => some none
  | .documentStart :: rest => only (marked rest)
  | tokens => only (read (2 * tokens.length) .block tokens)
where
  /-- The document behind its marker, which may be empty. -/
  marked (rest : List Token) : Option (Node × List Token) :=
    if rest = [] then some (empty, [])
    else orEmpty [.documentStart, .documentEnd] (read (2 * rest.length) .block) rest
  /-- Nothing may follow but one end marker. A second one would begin another document. -/
  only (document : Option (Node × List Token)) : Option (Option Node) := do
    let (node, rest) ← document
    if rest = [] ∨ rest = [.documentEnd] then return some node else none

end Node

end TagTemplate.Yaml
