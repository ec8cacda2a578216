import Mathlib.Data.List.Forall2
import Mathlib.Data.List.Infix

/-!
# Frames in a stream

A stream of words with nothing between them. A reader keeps what it gets until that decodes,
takes it as a frame and starts again. It needs no more than words that do not decode before
their end.
-/

namespace MlinkDevice.Framing

variable {α β : Type*}

/-- What came in since the last frame, and the frames. -/
structure Reader (α β : Type*) where
  pending : List β := []
  frames : List α := []

/-- The word decodes to the frame, and what comes before its end to none. -/
structure Delimits (decode : List β → Option α) (word : List β) (frame : α) : Prop where
  nonempty : word ≠ []
  complete : decode word = some frame
  incomplete : ∀ part rest, part ++ rest = word → rest ≠ [] → decode part = none

section Reading

variable (decode : List β → Option α)

def feed (r : Reader α β) (b : β) : Reader α β :=
  match decode (r.pending ++ [b]) with
  | some frame => { pending := [], frames := r.frames ++ [frame] }
  | none => { r with pending := r.pending ++ [b] }

def feedAll (r : Reader α β) (stream : List β) : Reader α β := stream.foldl (feed decode) r

def read (stream : List β) : Reader α β := feedAll decode {} stream

end Reading

variable {decode : List β → Option α} {word part rest : List β} {words : List (List β)} {frame : α}
  {frames : List α}

theorem feedAll_append (r : Reader α β) (xs ys : List β) :
    feedAll decode r (xs ++ ys) = feedAll decode (feedAll decode r xs) ys :=
  List.foldl_append

theorem feedAll_part (h : Delimits decode word frame) (hpart : part ++ rest = word)
    (hrest : rest ≠ []) (read : List α) :
    feedAll decode { frames := read } part = { pending := part, frames := read } := by
  induction part using List.reverseRecOn generalizing rest with
  | nil => rfl
  | append_singleton part b ih =>
    rw [List.append_assoc] at hpart
    have hnone := h.incomplete (part ++ [b]) rest (by rw [List.append_assoc, hpart]) hrest
    rw [feedAll_append, ih hpart (by simp)]
    simp only [feedAll, List.foldl_cons, List.foldl_nil, feed, hnone]

theorem feedAll_word (h : Delimits decode word frame) (read : List α) :
    feedAll decode { frames := read } word = { frames := read ++ [frame] } := by
  obtain ⟨part, b, rfl⟩ := List.eq_nil_or_concat' word |>.resolve_left h.nonempty
  rw [feedAll_append, feedAll_part h rfl (List.cons_ne_nil b [])]
  simp only [feedAll, List.foldl_cons, List.foldl_nil, feed, h.complete]

theorem feedAll_words (h : List.Forall₂ (Delimits decode) words frames) (read : List α) :
    feedAll decode { frames := read } words.flatten = { frames := read ++ frames } := by
  induction h generalizing read with
  | nil => simp [feedAll]
  | cons hword _ ih =>
    rw [List.flatten_cons, feedAll_append, feedAll_word hword, ih]
    simp

theorem read_words (h : List.Forall₂ (Delimits decode) words frames) :
    read decode words.flatten = { frames } :=
  feedAll_words h []

/-- Wherever the stream is cut, the reader has the frames of its whole words and keeps the rest. -/
theorem feedAll_prefix (h : List.Forall₂ (Delimits decode) words frames) {stream : List β}
    (hstream : stream <+: words.flatten) (read : List α) :
    ∃ n, (feedAll decode { frames := read } stream).frames = read ++ frames.take n ∧
      (words.take n).flatten ++ (feedAll decode { frames := read } stream).pending = stream := by
  induction h generalizing read stream with
  | nil =>
    obtain rfl := List.prefix_nil.mp hstream
    exact ⟨0, by simp [feedAll], rfl⟩
  | @cons word frame words frames hword _ ih =>
    have hwhole : ∀ more, more <+: words.flatten →
        ∃ n, (feedAll decode { frames := read } (word ++ more)).frames =
            read ++ (frame :: frames).take n ∧
          ((word :: words).take n).flatten ++
            (feedAll decode { frames := read } (word ++ more)).pending = word ++ more := by
      intro more hmore
      obtain ⟨n, hframes, hpending⟩ := ih hmore (read ++ [frame])
      refine ⟨n + 1, ?_, ?_⟩
      · rw [feedAll_append, feedAll_word hword, hframes, List.append_assoc]
        rfl
      · rw [feedAll_append, feedAll_word hword, List.take_succ_cons, List.flatten_cons,
          List.append_assoc, hpending]
    rw [List.flatten_cons] at hstream
    rcases List.prefix_or_prefix_of_prefix hstream (List.prefix_append word _) with hpart | hmore
    · obtain ⟨rest, hrest⟩ := hpart
      by_cases hend : rest = []
      · obtain rfl : stream = word := by simpa [hend] using hrest
        have := hwhole [] List.nil_prefix
        rwa [List.append_nil] at this
      · refine ⟨0, ?_, ?_⟩ <;> simp [feedAll_part hword hrest hend]
    · obtain ⟨more, rfl⟩ := hmore
      exact hwhole more ((List.prefix_append_right_inj word).mp hstream)

theorem read_prefix (h : List.Forall₂ (Delimits decode) words frames) {stream : List β}
    (hstream : stream <+: words.flatten) : ∃ n, (read decode stream).frames = frames.take n ∧
      (words.take n).flatten ++ (read decode stream).pending = stream :=
  feedAll_prefix h hstream []

end MlinkDevice.Framing
