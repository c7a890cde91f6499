import Mathlib.Data.List.Basic

/-!
# Event streams

The text of server-sent events: blocks of lines, of the form `name: value`, that a blank line ends.
A reader of such a text is given it in pieces, cut anywhere.

* `EventSource` — a reader: what it gives does not depend on the cuts, a block with a name and one
  line of data is a message, and a comment is nothing;
* `EventSource.read_blocks` — a text of such blocks, however it is cut;
* `reader` — the reader that takes a text letter by letter.
-/

namespace EventStream

/-- An event, as its reader gives it. -/
structure Message where
  event : List Char
  data : List Char
  deriving DecidableEq, Repr

/-- A text without a line break. -/
def Line (text : List Char) : Prop := ∀ c ∈ text, c ≠ '\n' ∧ c ≠ '\r'

instance (text : List Char) : Decidable (Line text) :=
  List.decidableBAll (fun c => c ≠ '\n' ∧ c ≠ '\r') text

theorem line_append {a b : List Char} (ha : Line a) (hb : Line b) : Line (a ++ b) := by
  intro c hc
  rcases List.mem_append.1 hc with hc | hc
  · exact ha c hc
  · exact hb c hc

/-- One line of a block. -/
def field (name value : List Char) : List Char := name ++ ':' :: ' ' :: (value ++ ['\n'])

def eventName : List Char := ['e', 'v', 'e', 'n', 't']

def dataName : List Char := ['d', 'a', 't', 'a']

/-- A block of the text. -/
inductive Block
  | message (m : Message)
  | comment (text : List Char)
  deriving DecidableEq, Repr

namespace Block

def text : Block → List Char
  | .message m => field eventName m.event ++ (field dataName m.data ++ ['\n'])
  | .comment text => ':' :: (text ++ ['\n', '\n'])

/-- What a block gives. -/
def given : Block → Option Message
  | .message m => some m
  | .comment _ => none

/-- No value of the block has a line break. -/
def Lines : Block → Prop
  | .message m => Line m.event ∧ Line m.data
  | .comment text => Line text

instance : ∀ b : Block, Decidable b.Lines
  | .message m => inferInstanceAs (Decidable (Line m.event ∧ Line m.data))
  | .comment text => inferInstanceAs (Decidable (Line text))

end Block

/-! ## Readers of a stream -/

/-- A reader of an event stream. -/
structure EventSource where
  State : Type
  start : State
  feed : State → List Char → State × List Message
  feed_nil : ∀ s, feed s [] = (s, [])
  feed_append : ∀ s a b, feed s (a ++ b) =
    ((feed (feed s a).1 b).1, (feed s a).2 ++ (feed (feed s a).1 b).2)
  feed_block : ∀ b : Block, b.Lines → feed start b.text = (start, b.given.toList)

namespace EventSource

variable (source : EventSource)

/-- What the reader gives when the text comes in pieces. -/
def readFrom (s : source.State) : List (List Char) → List Message
  | [] => []
  | chunk :: chunks => (source.feed s chunk).2 ++ readFrom (source.feed s chunk).1 chunks

def read (chunks : List (List Char)) : List Message := source.readFrom source.start chunks

/-- The cuts do not matter. -/
theorem readFrom_flatten (s : source.State) (chunks : List (List Char)) :
    source.readFrom s chunks = (source.feed s chunks.flatten).2 := by
  induction chunks generalizing s with
  | nil =>
    rw [List.flatten_nil, source.feed_nil]
    rfl
  | cons chunk chunks ih => rw [readFrom, List.flatten_cons, source.feed_append, ih]

/-- What was read stays read. -/
theorem readFrom_prefix (s : source.State) (chunks more : List (List Char)) :
    source.readFrom s chunks <+: source.readFrom s (chunks ++ more) := by
  induction chunks generalizing s with
  | nil => exact List.nil_prefix
  | cons chunk chunks ih => exact (List.prefix_append_right_inj _).2 (ih _)

/-- A block leaves the reader where it was. -/
theorem feed_blocks (blocks : List Block) (h : ∀ b ∈ blocks, b.Lines) :
    source.feed source.start (blocks.flatMap Block.text) =
      (source.start, blocks.filterMap Block.given) := by
  induction blocks with
  | nil => exact source.feed_nil _
  | cons b blocks ih =>
    have hb := source.feed_block b (h b List.mem_cons_self)
    have hrest := ih fun b' hb' => h b' (List.mem_cons_of_mem b hb')
    rw [List.flatMap_cons, source.feed_append, hb, hrest]
    cases b with
    | message m => rfl
    | comment text => rfl

/-- **A text of blocks**, cut anywhere, gives the messages among them, in order. -/
theorem read_blocks {blocks : List Block} (h : ∀ b ∈ blocks, b.Lines) {chunks : List (List Char)}
    (hchunks : chunks.flatten = blocks.flatMap Block.text) :
    source.read chunks = blocks.filterMap Block.given := by
  rw [read, readFrom_flatten, hchunks, source.feed_blocks blocks h]

end EventSource

/-! ## A reader that takes letters -/

/-- The unfinished line, whether a carriage return ended the line before it, and what the block so
far holds; every line of data has a line feed behind it. -/
structure Reader where
  line : List Char := []
  afterReturn : Bool := false
  event : List Char := []
  data : List Char := []
  deriving DecidableEq, Repr

namespace Reader

/-- The name and the value of a line; one blank behind the colon is not of the value. -/
def split (line : List Char) : List Char × List Char :=
  let value := (line.dropWhile (· ≠ ':')).tail
  (line.takeWhile (· ≠ ':'), if value.head? = some ' ' then value.tail else value)

/-- A line that has ended. -/
def take (r : Reader) (line : List Char) : Reader × List Message :=
  if line = [] then ({}, if r.data = [] then [] else [⟨r.event, r.data.dropLast⟩])
  else if (split line).1 = eventName then ({ r with event := (split line).2, line := [] }, [])
  else if (split line).1 = dataName then
    ({ r with data := r.data ++ ((split line).2 ++ ['\n']), line := [] }, [])
  else ({ r with line := [] }, [])

def step (r : Reader) (c : Char) : Reader × List Message :=
  if c = '\n' then
    if r.afterReturn then ({ r with afterReturn := false }, []) else r.take r.line
  else if c = '\r' then
    ({ (r.take r.line).1 with afterReturn := true }, (r.take r.line).2)
  else ({ r with line := r.line ++ [c], afterReturn := false }, [])

def feed (r : Reader) : List Char → Reader × List Message
  | [] => (r, [])
  | c :: text => ((feed (r.step c).1 text).1, (r.step c).2 ++ (feed (r.step c).1 text).2)

theorem feed_append (r : Reader) (a b : List Char) :
    r.feed (a ++ b) =
      (((r.feed a).1.feed b).1, (r.feed a).2 ++ ((r.feed a).1.feed b).2) := by
  induction a generalizing r with
  | nil => rfl
  | cons c a ih =>
    rw [List.cons_append, feed, ih]
    simp only [feed, List.append_assoc]

/-- Letters without a line break are put on the line. -/
theorem feed_open (r : Reader) (hr : r.afterReturn = false) {text : List Char} (h : Line text) :
    r.feed text = ({ r with line := r.line ++ text }, []) := by
  induction text generalizing r with
  | nil => rw [List.append_nil, feed]
  | cons c text ih =>
    obtain ⟨hn, hc⟩ := h c List.mem_cons_self
    have htext : Line text := fun d hd => h d (List.mem_cons_of_mem c hd)
    have hstep : r.step c = ({ r with line := r.line ++ [c] }, []) := by
      unfold step
      rw [if_neg hn, if_neg hc, ← hr]
    have hrest := ih { r with line := r.line ++ [c] } hr htext
    rw [feed, hstep]
    simp only [hrest, List.append_assoc, List.singleton_append, List.nil_append]

/-- A line and its end. -/
theorem feed_line (r : Reader) (hr : r.afterReturn = false) (hline : r.line = [])
    {text : List Char} (h : Line text) : r.feed (text ++ ['\n']) = r.take text := by
  have hend : ∀ r' : Reader, r'.afterReturn = false → r'.feed ['\n'] = r'.take r'.line := by
    intro r' hr'
    simp only [feed, step, hr', if_true, Bool.false_eq_true, if_false, List.append_nil]
  have htake : ∀ line : List Char, ({ r with line := line } : Reader).take text = r.take text := by
    intro line
    unfold take
    split <;> rfl
  rw [feed_append, feed_open r hr h]
  simp only [hline, List.nil_append, hend { r with line := text } hr, htake]

/-- The parts of a line are found again. -/
theorem split_field {name : List Char} (hname : ':' ∉ name) (value : List Char) :
    split (name ++ ':' :: ' ' :: value) = (name, value) := by
  have hplain : ∀ c ∈ name, decide (c ≠ ':') = true := by
    intro c hc
    exact decide_eq_true fun e => hname (e ▸ hc)
  have htaken : (name ++ ':' :: ' ' :: value).takeWhile (· ≠ ':') = name := by
    rw [List.takeWhile_append_of_pos hplain]
    simp
  have hleft : (name ++ ':' :: ' ' :: value).dropWhile (· ≠ ':') = ':' :: ' ' :: value := by
    rw [List.dropWhile_append_of_pos hplain]
    simp
  rw [split, htaken, hleft]
  rfl

/-- The line of a field, without its end, is one line. -/
theorem line_field {name value : List Char} (hname : Line name) (hvalue : Line value) :
    Line (name ++ ':' :: ' ' :: value) := by
  have hcolon : Line [':', ' '] := by decide
  exact line_append hname (line_append hcolon hvalue)

theorem field_eq (name value : List Char) :
    field name value = (name ++ ':' :: ' ' :: value) ++ ['\n'] := by
  simp [field]

theorem feed_event {value : List Char} (h : Line value) :
    ({} : Reader).feed (field eventName value) = ({ event := value }, []) := by
  rw [field_eq, feed_line _ rfl rfl (line_field (by decide) h), take,
    if_neg (List.append_ne_nil_of_left_ne_nil (by decide) _), split_field (by decide),
    if_pos rfl]

theorem feed_data (event : List Char) {value : List Char} (h : Line value) :
    ({ event := event } : Reader).feed (field dataName value) =
      ({ event := event, data := value ++ ['\n'] }, []) := by
  rw [field_eq, feed_line _ rfl rfl (line_field (by decide) h), take,
    if_neg (List.append_ne_nil_of_left_ne_nil (by decide) _), split_field (by decide),
    if_neg (show dataName ≠ eventName by decide), if_pos rfl]
  rfl

/-- A blank line ends the block. -/
theorem feed_blank (event data : List Char) :
    ({ event := event, data := data ++ ['\n'] } : Reader).feed ['\n'] =
      ({}, [⟨event, data⟩]) := by
  have hdata : data ++ ['\n'] ≠ [] := List.append_ne_nil_of_right_ne_nil _ (List.cons_ne_nil _ _)
  simp only [feed, step, take, if_true, Bool.false_eq_true, if_false, if_neg hdata,
    List.dropLast_concat, List.append_nil]

theorem feed_block (b : Block) (h : b.Lines) :
    ({} : Reader).feed b.text = ({}, b.given.toList) := by
  cases b with
  | message m =>
    rw [Block.text, feed_append, feed_event h.1, feed_append, feed_data m.event h.2, feed_blank]
    rfl
  | comment text =>
    have hline : Line (':' :: text) := by
      intro c hc
      rcases List.mem_cons.1 hc with rfl | hc
      · decide
      · exact h c hc
    have hsplit : (split (':' :: text)).1 = [] := rfl
    have htaken : ({} : Reader).take (':' :: text) = ({}, []) := by
      rw [take, if_neg (List.cons_ne_nil _ _), hsplit, if_neg (by decide), if_neg (by decide)]
    have htext : Block.text (.comment text) = ((':' :: text) ++ ['\n']) ++ ['\n'] := by
      simp [Block.text]
    rw [htext, feed_append, feed_line _ rfl rfl hline, htaken]
    rfl

end Reader

/-- The reader that takes a text letter by letter. -/
def reader : EventSource where
  State := Reader
  start := {}
  feed := Reader.feed
  feed_nil _ := rfl
  feed_append := Reader.feed_append
  feed_block := Reader.feed_block

end EventStream
