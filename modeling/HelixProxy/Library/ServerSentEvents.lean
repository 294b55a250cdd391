import Mathlib.Data.List.TakeWhile

/-!
# Server-Sent Events

The reader of a `text/event-stream`: lines end at LF, CR or CRLF, a line is a
field or a comment, a blank line dispatches what the `data` fields before it have
collected. A line or an event that has not come to its end is not there.
-/

namespace HelixProxy.Sse

set_option autoImplicit false

def isBreak (b : UInt8) : Bool := b == 10 || b == 13

/-- The lines that end in a text, of which the first has already begun. -/
def linesFrom (line : List UInt8) : List UInt8 → List (List UInt8)
  | [] => []
  | 13 :: 10 :: rest => line :: linesFrom [] rest
  | b :: rest => if isBreak b then line :: linesFrom [] rest else linesFrom (line ++ [b]) rest

structure Message where
  name : List UInt8
  data : List UInt8
  deriving DecidableEq, Repr

/-- The fields of an event so far: its name, and the lines of its data. -/
structure Buffer where
  name : List UInt8 := []
  data : List (List UInt8) := []

/-- The name of a field and its value, without one space behind the colon. A comment is
a field whose name is empty. -/
def field (line : List UInt8) : List UInt8 × List UInt8 :=
  (line.takeWhile (· != 58),
    match line.dropWhile (· != 58) with
    | 58 :: 32 :: value => value
    | _ :: value => value
    | [] => [])

def Buffer.add (buffer : Buffer) (f : List UInt8 × List UInt8) : Buffer :=
  if f.1 = [101, 118, 101, 110, 116] then { buffer with name := f.2 }
  else if f.1 = [100, 97, 116, 97] then { buffer with data := buffer.data ++ [f.2] }
  else buffer

def Buffer.dispatch (buffer : Buffer) : List Message :=
  if buffer.data = [] then [] else [⟨buffer.name, [10].intercalate buffer.data⟩]

def parse : Buffer → List (List UInt8) → List Message
  | _, [] => []
  | buffer, line :: lines =>
    if line = [] then buffer.dispatch ++ parse {} lines else parse (buffer.add (field line)) lines

/-- A byte order mark in front is not part of the stream. -/
def withoutMark : List UInt8 → List UInt8
  | 0xEF :: 0xBB :: 0xBF :: rest => rest
  | s => s

def messages (s : List UInt8) : List Message := parse {} (linesFrom [] (withoutMark s))

/-- An event whose data is one line. -/
def frame (data : List UInt8) : List UInt8 := [100, 97, 116, 97, 58, 32] ++ (data ++ [10, 10])

theorem linesFrom_line {text : List UInt8} (h : ∀ b ∈ text, isBreak b = false)
    (line rest : List UInt8) :
    linesFrom line (text ++ 10 :: rest) = (line ++ text) :: linesFrom [] rest := by
  induction text generalizing line with
  | nil => simp [linesFrom, isBreak]
  | cons b text ih =>
    have hb := h b List.mem_cons_self
    have hne : b ≠ 13 := by
      rintro rfl
      cases hb
    rw [List.cons_append, linesFrom, if_neg (Bool.eq_false_iff.mp hb),
      ih (fun c hc => h c (List.mem_cons_of_mem b hc)), List.append_assoc, List.singleton_append]
    intro rest' hb13
    exact absurd hb13 hne

theorem field_data (data : List UInt8) :
    field ([100, 97, 116, 97, 58, 32] ++ data) = ([100, 97, 116, 97], data) := rfl

theorem parse_data (data : List UInt8) (lines : List (List UInt8)) :
    parse {} (([100, 97, 116, 97, 58, 32] ++ data) :: [] :: lines) = ⟨[], data⟩ :: parse {} lines := by
  rw [parse, if_neg (by simp), field_data, parse, if_pos rfl]
  simp [Buffer.add, Buffer.dispatch]

theorem parse_frame {data : List UInt8} (h : ∀ b ∈ data, isBreak b = false) (rest : List UInt8) :
    parse {} (linesFrom [] (frame data ++ rest)) = ⟨[], data⟩ :: parse {} (linesFrom [] rest) := by
  have hfield : ∀ b ∈ [100, 97, 116, 97, 58, 32] ++ data, isBreak b = false :=
    List.forall_mem_append.mpr ⟨by decide, h⟩
  have hline := linesFrom_line hfield [] ([] ++ 10 :: rest)
  have hblank := @linesFrom_line [] (fun _ hb => nomatch hb) [] rest
  have hframe : frame data ++ rest = [100, 97, 116, 97, 58, 32] ++ data ++ 10 :: ([] ++ 10 :: rest) := by
    simp [frame]
  rw [hframe, hline, hblank]
  exact parse_data data (linesFrom [] rest)

/-- Events of one line of data each, one after the other, are read as they were written. -/
theorem messages_frames (datas : List (List UInt8))
    (h : ∀ data ∈ datas, ∀ b ∈ data, isBreak b = false) :
    messages (datas.flatMap frame) = datas.map fun data => ⟨[], data⟩ := by
  have hmark : withoutMark (datas.flatMap frame) = datas.flatMap frame := by
    cases datas with
    | nil => rfl
    | cons data datas => rfl
  rw [messages, hmark]
  clear hmark
  induction datas with
  | nil => rfl
  | cons data datas ih =>
    rw [List.flatMap_cons, parse_frame (h data List.mem_cons_self), List.map_cons]
    rw [ih fun d hd => h d (List.mem_cons_of_mem data hd)]

end HelixProxy.Sse
