import Inquiry.Command.Basic
import Inquiry.Message.Reader

/-!
# Reading commands

A command is read from its head and the message behind it. The first of these
that is wrong is the error: there is a word; its modifiers are taken and given
once; the word is a verb; a message is there if the verb takes one, and only
then; and it is a message.

One pair of parentheses around the whole message only marks where it begins and
ends. White space around a command does not count.
-/

namespace Inquiry

variable {C : Type}

namespace AskOptions

/-- The options with one more modifier, which must not be there yet. -/
def add (o : AskOptions) (m : Located Modifier) : Except ParseError AskOptions :=
  match m.item with
  | .recipient index =>
    if o.recipient.isSome then .error ⟨.duplicateModifier m.item.marker, m.span⟩
    else .ok { o with recipient := some ⟨.channel, index⟩ }
  | .budget units =>
    if o.budget.isSome then .error ⟨.duplicateModifier m.item.marker, m.span⟩
    else .ok { o with budget := some units }

/-- The options that the modifiers behind a word say; only `ask` takes any. -/
def ofModifiers (word : String) (ms : List (Located Modifier)) :
    Except ParseError AskOptions :=
  match ms with
  | [] => .ok {}
  | m :: _ =>
    if word = Verb.ask.word then ms.foldlM add {}
    else .error ⟨.modifierNotAllowed word, m.span⟩

end AskOptions

/-- The message without the parentheses around all of it, if there are any. -/
def Message.unwrap (m : Message C) : Message C :=
  match m.reference? with
  | some (.message inner) => inner
  | _ => m

namespace Command

/-- The message behind the word of a command that needs one. -/
def readArgument (word : String) (body : MessageTokens) : Except ParseError (Message C) := do
  if body.tokens.isEmpty then throw ⟨.missingArgument word, body.start⟩
  let m ← Message.ofTokens body.tokens
  return m.unwrap

/-- The command that a head and a message are. -/
def ofTokens (t : CommandTokens) : Except ParseError (Command C) :=
  match t.head with
  | none => .error ⟨.missingVerb, t.body.start⟩
  | some head => do
    let word := head.word.item
    let options ← AskOptions.ofModifiers word head.modifiers
    match Verb.ofWord? word with
    | some .reflect =>
      if t.body.tokens.isEmpty then return .reflect
      else throw ⟨.unexpectedArgument word, t.body.start⟩
    | some .view => return .view (← readArgument word t.body)
    | some .note => return .note (← readArgument word t.body)
    | some .reply => return .reply (← readArgument word t.body)
    | some .ask => return .ask (← readArgument word t.body) options
    | none => throw ⟨.unknownVerb word, head.word.span⟩

/-- The command that a text is, or the errors in it. -/
def tryParse (text : String) : Except ErrorList (Command C) :=
  let scanned := CommandTokens.scan (Text.trim text.toList)
  scanned.body.errors.conclude (ofTokens scanned)

/-- The command that a text is; text that is none is a malformed one. -/
def parse (text : String) : Command C :=
  match tryParse text with
  | .ok c => c
  | .error _ => .malformed

end Command

end Inquiry
