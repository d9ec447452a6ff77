/-!
# Providers of fields and values

Which fields there are, and which values a field may take, is known outside the library: to a remote
service, to a store, to a catalog in memory. A provider answers two questions. What it answers may
change with the state of the world at the moment it is asked, and it may fail to answer at all.

A computation that asks a provider is a `Consultation`: its outcome together with the questions that
were asked on the way, in their order. A failed question ends it, and is still among the questions.
-/

namespace QueryBar

/-- A field or a value that a provider offers. -/
structure Candidate where
  label : String
  description : Option String := none
deriving DecidableEq, Repr

/-- The clause a value is typed for: the texts of its field and of its operator. -/
structure ValueContext where
  field : Option String := none
  operator : Option String := none
deriving DecidableEq, Repr

inductive Question where
  | fields
  /-- The values for a context. `current` is the value typed so far, none after a bare operator. -/
  | values (current : Option String) (context : ValueContext)
deriving DecidableEq, Repr

inductive ProviderError where
  | unavailable (reason : String)
deriving DecidableEq, Repr

namespace ProviderError

def message : ProviderError → String
  | unavailable reason => s!"provider unavailable: {reason}"

end ProviderError

/-- The candidates that answer a question, or the reason why there is no answer. -/
abbrev Answer := Except ProviderError (List Candidate)

/-- A source of answers, which may depend on the state of the world. -/
structure Provider (World : Type) where
  fields : World → Answer
  values : World → Option String → ValueContext → Answer

/-- An outcome and the questions asked to get there. -/
structure Consultation (α : Type) where
  questions : List Question
  outcome : Except ProviderError α

namespace Consultation

variable {α β : Type}

protected def pure (a : α) : Consultation α := ⟨[], .ok a⟩

/-- Goes on with the outcome of a first consultation, unless it failed. -/
protected def bind (x : Consultation α) (f : α → Consultation β) : Consultation β :=
  match x.outcome with
  | .ok a =>
    let y := f a
    ⟨x.questions ++ y.questions, y.outcome⟩
  | .error e => ⟨x.questions, .error e⟩

instance : Monad Consultation where
  pure := Consultation.pure
  bind := Consultation.bind

end Consultation

namespace Provider

variable {World : Type}

def answer (p : Provider World) (w : World) : Question → Answer
  | .fields => p.fields w
  | .values current context => p.values w current context

def ask (p : Provider World) (w : World) (q : Question) : Consultation (List Candidate) :=
  ⟨[q], p.answer w q⟩

end Provider

end QueryBar
