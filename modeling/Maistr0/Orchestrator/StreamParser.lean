import Mathlib

/-!
# Lines of a stream

`compat_stream_parser.go`. The loop of `write` is one pass over the bytes, with those since the last line break at hand;
`bytes.TrimSpace` is left open. What a parser makes of its bytes is said by cutting all of them at the line breaks.
-/

namespace Maistr0.Orchestrator

open List

structure CompatStreamParser where
  buffer : List UInt8 := []
deriving DecidableEq

namespace CompatStreamParser

section

variable {σ : Type} (trimSpace : List UInt8 → List UInt8) (consume : σ → List UInt8 → σ × Option String)

def dataMark : List UInt8 := [100, 97, 116, 97, 58]

def payload (line : List UInt8) : Option (List UInt8) :=
  if dataMark.isPrefixOf (trimSpace line) then some (trimSpace ((trimSpace line).drop dataMark.length)) else none

/-- The loop of `write`. The bytes of `line` come after `consumed` and are known to have no line break. -/
def consumeLines (line : List UInt8) : List UInt8 → σ → (σ × Option String) × CompatStreamParser
  | [], s => ((s, none), ⟨line⟩)
  | b :: rest, s =>
    if b = 10 then
      match payload trimSpace line with
      | none => consumeLines [] rest s
      | some data =>
        match consume s data with
        | (s, none) => consumeLines [] rest s
        | (s, some err) => ((s, some err), ⟨rest⟩)
    else consumeLines (line ++ [b]) rest s

def write (p : CompatStreamParser) (data : List UInt8) (s : σ) : (σ × Option String) × CompatStreamParser :=
  consumeLines trimSpace consume [] (p.buffer ++ data) s

/-- One chunk after the other, up to the first error. -/
def writes (p : CompatStreamParser) : List (List UInt8) → σ → (σ × Option String) × CompatStreamParser
  | [], s => ((s, none), p)
  | chunk :: chunks, s =>
    match p.write trimSpace consume chunk s with
    | ((s, none), p) => writes p chunks s
    | failed => failed

/-- All complete lines go to the consumer, and the last, incomplete one stays. -/
def ofLines (lines : List (List UInt8)) (s : σ) : (σ × Option String) × CompatStreamParser :=
  (((lines.dropLast.filterMap (payload trimSpace)).foldl (fun s data => (consume s data).1) s, none), ⟨lines.getLastD []⟩)

variable {trimSpace consume} {line : List UInt8} (hconsume : ∀ s data, (consume s data).2 = none)

include hconsume

theorem consumeLines_break (rest : List UInt8) (s : σ) : consumeLines trimSpace consume line (10 :: rest) s =
    consumeLines trimSpace consume [] rest ((payload trimSpace line).elim s fun data => (consume s data).1) := by
  rw [consumeLines, if_pos rfl]
  cases payload trimSpace line with
  | none => rfl
  | some data =>
    have hok : consume s data = ((consume s data).1, none) := Prod.ext rfl (hconsume s data)
    simp only [Option.elim_some]
    rw [hok]

theorem consumeLines_eq (hline : 10 ∉ line) (bytes : List UInt8) (s : σ) :
    consumeLines trimSpace consume line bytes s = ofLines trimSpace consume ((line ++ bytes).splitOn 10) s := by
  have hbreaks : ∀ {line : List UInt8}, 10 ∉ line → ∀ b ∈ line, (b == 10) = false := by
    rintro line hline b hb
    exact beq_eq_false_iff_ne.mpr fun heq => hline (heq ▸ hb)
  induction bytes generalizing line s with
  | nil =>
    rw [append_nil, splitOn, splitOnP_eq_singleton (hbreaks hline)]
    rfl
  | cons b rest ih =>
    by_cases hb : b = 10
    · subst hb
      rw [consumeLines_break hconsume, ih not_mem_nil, splitOn, splitOn,
        splitOnP_append_cons_of_forall_mem (hbreaks hline) 10 rfl]
      obtain ⟨_, _, heq⟩ := exists_cons_of_ne_nil (splitOnP_ne_nil (· == 10) rest)
      rw [nil_append, heq]
      cases hp : payload trimSpace line <;> simp [ofLines, hp]
    · rw [consumeLines, if_neg hb, ih, append_assoc, singleton_append]
      simpa [eq_comm] using ⟨hline, hb⟩

theorem consumeLines_append (hline : 10 ∉ line) (bytes : List UInt8) (s : σ) :
    ∃ s' rest, consumeLines trimSpace consume line bytes s = ((s', none), ⟨rest⟩) ∧ 10 ∉ rest ∧
      ∀ more, consumeLines trimSpace consume line (bytes ++ more) s = consumeLines trimSpace consume rest more s' := by
  induction bytes generalizing line s with
  | nil => exact ⟨s, line, rfl, hline, fun _ => rfl⟩
  | cons b bytes ih =>
    by_cases hb : b = 10
    · subst hb
      simp only [cons_append, consumeLines_break hconsume]
      exact ih not_mem_nil _
    · simp only [cons_append, consumeLines, if_neg hb]
      exact ih (by simpa [eq_comm] using ⟨hline, hb⟩) s

theorem writes_eq {buffer : List UInt8} (hbuffer : 10 ∉ buffer) (chunks : List (List UInt8)) (s : σ) :
    writes trimSpace consume ⟨buffer⟩ chunks s = consumeLines trimSpace consume buffer chunks.flatten s := by
  induction chunks generalizing buffer s with
  | nil => rfl
  | cons chunk chunks ih =>
    obtain ⟨s', _, hwrite, hrest, happend⟩ := consumeLines_append hconsume hbuffer chunk s
    -- The bytes kept from earlier writes have no line break, so reading them again changes nothing.
    rw [writes, write, consumeLines_eq hconsume not_mem_nil, nil_append, ← consumeLines_eq hconsume hbuffer, hwrite,
      flatten_cons, happend]
    exact ih hrest s'

/-- What the consumer has seen and what stays behind do not depend on how the bytes were cut. -/
theorem writes_any_chunks (chunks chunks' : List (List UInt8)) (hbytes : chunks.flatten = chunks'.flatten) (s : σ) :
    writes trimSpace consume {} chunks s = writes trimSpace consume {} chunks' s ∧
      writes trimSpace consume {} chunks s = ofLines trimSpace consume (chunks.flatten.splitOn 10) s := by
  rw [writes_eq hconsume not_mem_nil, writes_eq hconsume not_mem_nil, hbytes]
  exact ⟨rfl, consumeLines_eq hconsume not_mem_nil _ s⟩

end

theorem writes_any_chunks_cut :
    writes id (fun seen data => (seen ++ [data], none)) {} [[100, 97, 116], [97, 58, 49, 10, 50]] [] =
      (([[49]], none), ⟨[50]⟩) :=
  (writes_any_chunks (fun _ _ => rfl) _ [[100, 97, 116, 97, 58, 49, 10], [50]] (by decide) []).1.trans rfl

end CompatStreamParser

end Maistr0.Orchestrator
