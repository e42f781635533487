import SignalGraph.Number.Binary32

/-!
# Random numbers

A generator of uniform numbers: the words of a ChaCha key stream with twelve rounds, in order.  The
key comes from a 64-bit seed by a linear congruential sequence with permuted output.
-/

namespace SignalGraph

/-- The generator's state.  Words of the current block that were not drawn yet come first, then the
blocks from `counter` on. -/
structure Generator where
  key : Vector UInt32 8
  counter : UInt64
  pending : List UInt32

namespace Generator

def rotateLeft (x : UInt32) (n : UInt32) : UInt32 := (x <<< n) ||| (x >>> (32 - n))

def rotateRight (x : UInt32) (n : UInt32) : UInt32 := (x >>> n) ||| (x <<< (32 - n))

def quarter (s : Vector UInt32 16) (i j k l : Fin 16) : Vector UInt32 16 :=
  let a := s[i] + s[j]
  let d := rotateLeft (s[l] ^^^ a) 16
  let c := s[k] + d
  let b := rotateLeft (s[j] ^^^ c) 12
  let a := a + b
  let d := rotateLeft (d ^^^ a) 8
  let c := c + d
  let b := rotateLeft (b ^^^ c) 7
  (((s.set i a).set j b).set k c).set l d

def doubleRound (s : Vector UInt32 16) : Vector UInt32 16 :=
  let s := quarter s 0 4 8 12
  let s := quarter s 1 5 9 13
  let s := quarter s 2 6 10 14
  let s := quarter s 3 7 11 15
  let s := quarter s 0 5 10 15
  let s := quarter s 1 6 11 12
  let s := quarter s 2 7 8 13
  quarter s 3 4 9 14

def initial (key : Vector UInt32 8) (counter : UInt64) : Vector UInt32 16 :=
  let constants : Vector UInt32 4 := #v[0x61707865, 0x3320646e, 0x79622d32, 0x6b206574]
  let position : Vector UInt32 4 := #v[counter.toUInt32, (counter >>> 32).toUInt32, 0, 0]
  constants ++ key ++ position

def block (key : Vector UInt32 8) (counter : UInt64) : Vector UInt32 16 :=
  let start := initial key counter
  let mixed := Nat.repeat doubleRound 6 start
  mixed.zipWith (· + ·) start

/-- One step of the sequence that spreads a seed, and the word it yields. -/
def spread (state : UInt64) : UInt32 × UInt64 :=
  let state := state * 6364136223846793005 + 11634580027462260723
  (rotateRight (((state >>> 18) ^^^ state) >>> 27).toUInt32 (state >>> 59).toUInt32, state)

def spreadWords : (n : Nat) → UInt64 → Vector UInt32 n
  | 0, _ => #v[]
  | n + 1, state =>
    let (word, state) := spread state
    (#v[word] ++ spreadWords n state).cast (Nat.add_comm 1 n)

def ofSeed (seed : UInt64) : Generator :=
  { key := spreadWords 8 seed, counter := 0, pending := [] }

def word (g : Generator) : UInt32 × Generator :=
  match g.pending with
  | w :: rest => (w, { g with pending := rest })
  | [] =>
    let words := block g.key g.counter
    (words[0], { g with counter := g.counter + 1, pending := words.toList.drop 1 })

/-- A number from zero to below one: the upper 24 bits of a word. -/
def unit (g : Generator) : Binary32 × Generator :=
  let (w, g) := g.word
  (.ofUInt32 (w >>> 8) * 5.9604644775390625e-8, g)

end Generator
end SignalGraph
