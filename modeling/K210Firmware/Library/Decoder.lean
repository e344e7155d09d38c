import Mathlib.Data.List.Basic
import Mathlib.Data.List.Infix

/-!
# Incremental decoders

A decoder reads one symbol at a time and now and then gives a token. If it returns to its start
after the symbols of each single token, then it takes a stream of tokens apart, and a part of the
stream gives a part of the tokens.
-/

namespace K210Firmware.Decoding

structure Decoder (State Symbol Token : Type*) where
  start : State
  step : State → Symbol → State × Option Token

namespace Decoder

variable {State Symbol Token : Type*} (decoder : Decoder State Symbol Token)

/-- The state after the symbols, and the tokens they have given. -/
def feed (state : State) : List Symbol → State × List Token
  | [] => (state, [])
  | symbol :: symbols =>
      let (next, token) := decoder.step state symbol
      let (last, tokens) := feed next symbols
      (last, token.toList ++ tokens)

def tokens (symbols : List Symbol) : List Token := (decoder.feed decoder.start symbols).2

theorem feed_append (state : State) (symbols others : List Symbol) :
    decoder.feed state (symbols ++ others) =
      let (middle, tokens) := decoder.feed state symbols
      let (last, rest) := decoder.feed middle others
      (last, tokens ++ rest) := by
  induction symbols generalizing state with
  | nil => rfl
  | cons symbol symbols ih =>
    simp only [List.cons_append, feed, ih, List.append_assoc]

/-- What has been read is never taken back. -/
theorem tokens_prefix (symbols others : List Symbol) :
    decoder.tokens symbols <+: decoder.tokens (symbols ++ others) := by
  rw [tokens, tokens, feed_append]
  exact List.prefix_append ..

/-- The decoder reads the symbols of the token, gives the token and is back at its start. -/
def Inverts (encode : Token → List Symbol) (token : Token) : Prop :=
  decoder.feed decoder.start (encode token) = (decoder.start, [token])

variable {decoder} {encode : Token → List Symbol}

theorem feed_flatMap {sent : List Token} (h : ∀ token ∈ sent, decoder.Inverts encode token) :
    decoder.feed decoder.start (sent.flatMap encode) = (decoder.start, sent) := by
  induction sent with
  | nil => rfl
  | cons token sent ih =>
    obtain ⟨htoken, hsent⟩ := List.forall_mem_cons.mp h
    rw [Inverts] at htoken
    rw [List.flatMap_cons, feed_append, htoken]
    simp only [ih hsent]
    rfl

/-- **Round trip.** A part of the stream of some tokens decodes to a part of the tokens. -/
theorem tokens_isPrefix {sent : List Token} (h : ∀ token ∈ sent, decoder.Inverts encode token)
    {received others : List Symbol} (hstream : received ++ others = sent.flatMap encode) :
    decoder.tokens received <+: sent := by
  have hpart := decoder.tokens_prefix received others
  rwa [hstream, tokens, tokens, feed_flatMap h] at hpart

end Decoder

end K210Firmware.Decoding
