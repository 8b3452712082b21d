import Inquiry.Message.Display

/-!
# Commands

What a respondent may do in one turn. Each command is written as its verb and,
but for `reflect`, a message; `ask` may say directly behind the verb whom it
asks and how much budget it hands on.
-/

namespace Inquiry

/-- The words that commands are written with. -/
inductive Verb
  | reflect
  | view
  | note
  | reply
  | ask
  deriving DecidableEq

namespace Verb

/-- The word itself. -/
def word : Verb → String
  | .reflect => "reflect"
  | .view => "view"
  | .note => "note"
  | .reply => "reply"
  | .ask => "ask"

/-- The verb a word is. -/
def ofWord? (w : String) : Option Verb :=
  [reflect, view, note, reply, ask].find? (·.word == w)

theorem ofWord?_word (v : Verb) : ofWord? v.word = some v := by
  cases v <;> decide

end Verb

/-- What an `ask` may say besides its question. -/
structure AskOptions where
  /-- How much budget to hand on; a fixed share of what is there by default. -/
  budget : Option Nat := none
  /-- Whom to ask; someone new by default. -/
  recipient : Option Pointer := none
  deriving DecidableEq

/-- What a respondent does in one turn. -/
inductive Command (C : Type)
  /-- Text that is no command. -/
  | malformed
  /-- Get a channel to this very conversation. -/
  | reflect
  /-- Look at what a message refers to. -/
  | view (m : Message C)
  /-- Write something down. -/
  | note (m : Message C)
  /-- Give the answer, which ends the conversation. -/
  | reply (m : Message C)
  /-- Put a question to someone else. -/
  | ask (m : Message C) (options : AskOptions)
  deriving DecidableEq

namespace Command

variable {C : Type}

/-- What the command is called. -/
def verb : Command C → String
  | .malformed => "malformed"
  | .reflect => Verb.reflect.word
  | .view _ => Verb.view.word
  | .note _ => Verb.note.word
  | .reply _ => Verb.reply.word
  | .ask _ _ => Verb.ask.word

/-- Whether the command is text that was none. -/
def isMalformed : Command C → Bool
  | .malformed => true
  | _ => false

/-- The message of a command that has one. -/
def message? : Command C → Option (Message C)
  | .malformed => none
  | .reflect => none
  | .view m => some m
  | .note m => some m
  | .reply m => some m
  | .ask m _ => some m

/-- The command as text, such as `ask@2$5 what now`. -/
def display : Command C → String
  | .malformed => verb (.malformed : Command C)
  | .reflect => Verb.reflect.word
  | .view m => Verb.view.word ++ " " ++ m.display
  | .note m => Verb.note.word ++ " " ++ m.display
  | .reply m => Verb.reply.word ++ " " ++ m.display
  | .ask m options =>
    Verb.ask.word ++
      options.recipient.elim "" (fun p => "@" ++ toString p.index) ++
      options.budget.elim "" (fun b => "$" ++ toString b) ++ " " ++ m.display

end Command

end Inquiry
