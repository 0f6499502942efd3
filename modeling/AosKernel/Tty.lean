import AosKernel.Lib.LittleEndian

/-!
# Output to the terminal

`tty_write` of `kernel/tty.c`, for buffers without NUL. `tty_serial_write` and `tty_console_write`
each look for escapes on their own; both read a buffer as the same list of `items`. The serial port
swallows the character behind an ESC that starts no command, and `tty_console_write` collects 127
characters and writes them with the colour it has then (`output_agrees_iff`).
-/

namespace AosKernel.Tty

open Lib List

/-- `TTY_ESC`, and the commands `TTY_CMD_COLOR`, `TTY_CMD_RESET` and `TTY_CMD_CLEAR`. -/
def ttyEsc : CChar := ⟨0x1B, by decide⟩
def ttyCmdColor : CChar := ⟨0x43, by decide⟩
def ttyCmdReset : CChar := ⟨0x52, by decide⟩
def ttyCmdClear : CChar := ⟨0x4C, by decide⟩

def ttySerialWrite : CString → CString
  | [] => []
  | [c] => [c]
  | c :: cmd :: buf =>
      if c = ttyEsc then
        if cmd = ttyCmdColor then
          match buf with
          | [] => []
          | _ :: buf => ttySerialWrite buf
        else if cmd = ttyCmdReset ∨ cmd = ttyCmdClear then ttySerialWrite buf
        else c :: ttySerialWrite buf -- `cmd` has been read and is not sent
      else c :: ttySerialWrite (cmd :: buf)

/-- The batch of `tty_console_write`, `tty_output_color`, and the characters that `vga_write` was
given so far, with their colours. -/
structure Console where
  out : CString
  color : UInt8
  sent : List (CChar × UInt8)

namespace Console

def flush (s : Console) : Console := ⟨[], s.color, s.sent ++ s.out.map (·, s.color)⟩

/-- Characters are added to the batch; the inner loop goes on while `out_len + 1 < sizeof(out)`. Two
of them at `out_len` 126 fill the array, and the NUL behind it is written outside. -/
def put (s : Console) (chars : CString) : Console :=
  let s := { s with out := s.out ++ chars }
  if s.out.length + 1 < 128 then s else s.flush

end Console

/-- The two loops of `tty_console_write`. -/
def ttyConsoleWrite : CString → Console → Console
  | [], s => s.flush
  | [c], s => (s.put [c]).flush
  | c :: cmd :: buf, s =>
      if c = ttyEsc then
        if cmd = ttyCmdColor then
          match buf with
          | [] => s.flush
          | color :: buf => ttyConsoleWrite buf { s with color := color.val }
        else if cmd = ttyCmdReset then ttyConsoleWrite buf { s with color := 0x0F }
        -- `vga_clear` sends no characters
        else if cmd = ttyCmdClear then ttyConsoleWrite buf { s with color := 0x0F }
        else ttyConsoleWrite buf (s.put [c, cmd])
      else ttyConsoleWrite (cmd :: buf) (s.put [c])

/-- What the port and the console get, with `tty_output_color` at the start. -/
def ttyWrite (buf : CString) (color : UInt8) : CString × Console :=
  (ttySerialWrite (buf.take 4096), ttyConsoleWrite (buf.take 4096) ⟨[], color, []⟩)

/-! ## What is to be shown -/

/-- A character, an escape, or an ESC with a character that is no command (`unknown`); `cut` is a
colour escape at the end of the buffer, without the colour. -/
inductive Item
  | char (c : CChar)
  | color (c : CChar)
  | cut
  | reset
  | clear
  | unknown (cmd : CChar)

/-- How a buffer is read. An ESC at its end is a character. -/
def items : CString → List Item
  | [] => []
  | [c] => [.char c]
  | c :: cmd :: buf =>
      if c ≠ ttyEsc then .char c :: items (cmd :: buf)
      else if cmd = ttyCmdColor then
        match buf with
        | [] => [.cut]
        | c :: buf => .color c :: items buf
      else if cmd = ttyCmdReset then .reset :: items buf
      else if cmd = ttyCmdClear then .clear :: items buf
      else .unknown cmd :: items buf

namespace Item

/-- The characters of an item that are not part of a colour, reset or clear escape. -/
def kept : Item → CString
  | .char c => [c]
  | .unknown cmd => [ttyEsc, cmd]
  | _ => []

/-- The colour behind an item: colour and reset escapes set it. -/
def colorAfter (color : UInt8) : Item → UInt8
  | .color c => c.val
  | .reset => 0x0F
  | _ => color

/-- The colour behind an item if clear escapes reset it too. -/
def colorOrClear (color : UInt8) : Item → UInt8
  | .clear => 0x0F
  | i => i.colorAfter color

end Item

/-- Each character that is kept has the colour set last before it. -/
def shown : UInt8 → List Item → List (CChar × UInt8)
  | _, [] => []
  | color, i :: is => i.kept.map (·, color) ++ shown (i.colorAfter color) is

/-- The items up to the one that makes `n` characters 127, or to the end. -/
def untilFull : Nat → List Item → List Item
  | _, [] => []
  | n, i :: is => if n + i.kept.length = 127 then [i] else i :: untilFull (n + i.kept.length) is

/-- The colour set before each character is the one at the end of its batch, which is full with
every 127th character, if clear escapes reset the colour. -/
def ColorsKept (color : UInt8) (is : List Item) : Prop :=
  ∀ before c behind, is = before ++ .char c :: behind →
    before.foldl Item.colorAfter color =
      (before ++ untilFull ((before.flatMap Item.kept).length % 127) (.char c :: behind)).foldl
        Item.colorOrClear color

/-! ## The two loops -/

def serialItem : Item → CString
  | .char c => [c]
  | .unknown _ => [ttyEsc]
  | _ => []

def Console.item (s : Console) (i : Item) : Console :=
  match i with
  | .char _ | .unknown _ => s.put i.kept
  | _ => { s with color := i.colorOrClear s.color }

/-- Both loops go through the items of the buffer. -/
lemma writes_items (buf : CString) : ttySerialWrite buf = (items buf).flatMap serialItem ∧
    ∀ s, ttyConsoleWrite buf s = ((items buf).foldl Console.item s).flush := by
  induction hlen : buf.length using Nat.strong_induction_on generalizing buf with
  | _ n ih =>
  obtain _ | ⟨c, _ | ⟨cmd, buf⟩⟩ := buf
  · exact ⟨rfl, fun _ => rfl⟩
  · exact ⟨rfl, fun _ => rfl⟩
  have hnext := ih _ (by simp [← hlen]) (cmd :: buf) rfl
  have hskip := ih _ (by simp [← hlen]) buf rfl
  unfold ttySerialWrite ttyConsoleWrite items
  by_cases hesc : c = ttyEsc
  · subst hesc
    by_cases hcolor : cmd = ttyCmdColor
    · cases buf with
      | nil => simp [hcolor, serialItem, Console.item, Item.colorOrClear, Item.colorAfter]
      | cons color buf =>
        have hargument := ih _ (by simp [← hlen]; omega) buf rfl
        simp [hcolor, hargument, serialItem, Console.item, Item.colorOrClear, Item.colorAfter]
    by_cases hreset : cmd = ttyCmdReset
    · subst hreset
      simp [hcolor, hskip, serialItem, Console.item, Item.colorOrClear, Item.colorAfter]
    by_cases hclear : cmd = ttyCmdClear
    · subst hclear
      simp [hcolor, hreset, hskip, serialItem, Console.item, Item.colorOrClear]
    · simp [hcolor, hreset, hclear, hskip, serialItem, Console.item, Item.kept]
  · simp [hesc, hnext, serialItem, Console.item, Item.kept]

/-! ## The characters -/

lemma Console.put_chars (s : Console) (chars : CString) :
    (s.put chars).flush.sent.map Prod.fst = s.flush.sent.map Prod.fst ++ chars := by
  unfold put
  dsimp only
  split <;> simp [flush, Function.comp_def]

lemma Console.item_chars (s : Console) (i : Item) :
    (s.item i).flush.sent.map Prod.fst = s.flush.sent.map Prod.fst ++ i.kept := by
  cases i with
  | char | unknown => exact s.put_chars _
  | color | cut | reset | clear => simp [item, flush, Item.kept, Function.comp_def]

lemma foldl_chars (is : List Item) (s : Console) :
    (is.foldl Console.item s).flush.sent.map Prod.fst =
      s.flush.sent.map Prod.fst ++ is.flatMap Item.kept := by
  induction is generalizing s with
  | nil => simp
  | cons i is ih => rw [foldl_cons, ih, s.item_chars, append_assoc, flatMap_cons]

lemma serial_length_le (is : List Item) :
    (is.flatMap serialItem).length ≤ (is.flatMap Item.kept).length := by
  induction is with
  | nil => rfl
  | cons i is ih => cases i <;> simp [serialItem, Item.kept] at ih ⊢ <;> omega

lemma serial_eq_iff (is : List Item) :
    is.flatMap serialItem = is.flatMap Item.kept ↔ ∀ cmd, .unknown cmd ∉ is := by
  induction is with
  | nil => simp
  | cons i is ih =>
    cases i with
    | unknown cmd =>
      refine iff_of_false (fun h => ?_) fun h => h cmd (by simp)
      have hlen := congrArg length h
      have hle := serial_length_le is
      simp only [flatMap_cons, serialItem, Item.kept, length_append, length_cons] at hlen
      omega
    | _ => simpa [serialItem, Item.kept] using ih

/-! ## The colours -/

/-- The characters with the colours of their batches, `n` characters being in the first one. -/
def painted : Nat → UInt8 → List Item → List (CChar × UInt8)
  | _, _, [] => []
  | n, color, i :: is =>
      i.kept.map (·, (untilFull n (i :: is)).foldl Item.colorOrClear color) ++
        painted ((n + i.kept.length) % 127) (i.colorOrClear color) is

/-- The characters in the batch and those to come are written with the colours of their batches. -/
lemma foldl_sent {is : List Item} (hknown : ∀ cmd, .unknown cmd ∉ is) {s : Console}
    (hout : s.out.length < 127) : (is.foldl Console.item s).flush.sent =
      s.sent ++ s.out.map (·, (untilFull s.out.length is).foldl Item.colorOrClear s.color) ++
        painted s.out.length s.color is := by
  induction is generalizing s with
  | nil => simp [Console.flush, untilFull, painted]
  | cons i is ih =>
    have hrest : ∀ cmd, .unknown cmd ∉ is := fun cmd h => hknown cmd (mem_cons_of_mem i h)
    rw [foldl_cons]
    cases i with
    | unknown cmd => exact absurd mem_cons_self (hknown cmd)
    | char c =>
      by_cases hfull : s.out.length + 1 = 127
      · -- the batch is full and is written
        have hput : s.item (.char c) =
            ⟨[], s.color, s.sent ++ (s.out ++ [c]).map (·, s.color)⟩ := by
          simp [Console.item, Console.put, Item.kept, Console.flush, hfull]
        rw [hput, ih hrest (by simp)]
        simp [untilFull, painted, Item.kept, hfull, Item.colorOrClear, Item.colorAfter]
      · have hput : s.item (.char c) = { s with out := s.out ++ [c] } := by
          simp only [Console.item, Console.put, Item.kept, length_append, length_singleton]
          exact if_pos (by omega)
        rw [hput, ih hrest (by simp; omega)]
        simp [untilFull, painted, Item.kept, hfull, Item.colorOrClear, Item.colorAfter,
          Nat.mod_eq_of_lt (show s.out.length + 1 < 127 by omega)]
    | color | cut | reset | clear =>
      rw [ih hrest (by exact hout)]
      simp [Console.item, untilFull, painted, Item.kept, Nat.mod_eq_of_lt hout, hout.ne]

/-- The batches have the colours asked for exactly if `ColorsKept` holds, behind the items
`done`. -/
lemma painted_eq_shown_iff (color : UInt8) {is : List Item} (hknown : ∀ cmd, .unknown cmd ∉ is)
    (done : List Item) : painted ((done.flatMap Item.kept).length % 127)
        (done.foldl Item.colorOrClear color) is = shown (done.foldl Item.colorAfter color) is ↔
      ∀ before c behind, is = before ++ .char c :: behind →
        (done ++ before).foldl Item.colorAfter color = (done ++ before ++ untilFull
          (((done ++ before).flatMap Item.kept).length % 127) (.char c :: behind)).foldl
            Item.colorOrClear color := by
  induction is generalizing done with
  | nil => simp [painted, shown]
  | cons i is ih =>
    have hih := ih (fun cmd h => hknown cmd (mem_cons_of_mem i h)) (done ++ [i])
    simp only [flatMap_append, flatMap_singleton, length_append, foldl_append,
      foldl_cons, foldl_nil, append_assoc, singleton_append] at hih
    rw [← Nat.mod_add_mod] at hih
    have hsplit : ∀ {P : List Item → CChar → List Item → Prop},
        (∀ before c behind, i :: is = before ++ .char c :: behind → P before c behind) ↔
          (∀ c, i = .char c → P [] c is) ∧
            ∀ before c behind, is = before ++ .char c :: behind → P (i :: before) c behind := by
      intro P
      refine ⟨fun h => ⟨?_, ?_⟩, fun h => ?_⟩
      · rintro c rfl
        exact h [] c is rfl
      · rintro before c behind rfl
        exact h (i :: before) c behind rfl
      · rintro (_ | ⟨j, before⟩) c behind heq
        · obtain ⟨rfl, rfl⟩ := cons.inj heq
          exact h.1 c rfl
        · obtain ⟨rfl, rfl⟩ := cons.inj heq
          exact h.2 before c behind rfl
    rw [hsplit, painted, shown]
    simp only [append_nil, flatMap_append, length_append, foldl_append,
      flatMap_cons, foldl_cons, append_assoc, cons_append] at hih ⊢
    rw [← hih]
    cases i with
    | unknown cmd => exact absurd mem_cons_self (hknown cmd)
    | char c =>
      simp only [Item.kept, map_cons, map_nil, cons_append, nil_append,
        cons.injEq, Prod.mk.injEq, true_and, Item.char.injEq, forall_eq']
      exact and_congr_left fun _ => eq_comm
    | color | cut | reset | clear => simp [Item.kept]

/-- The port and the console get the characters of the buffer, in their colours, exactly if no ESC
stands before a character that is no command and the colours are those at the ends of the batches.
What the console gets is always the buffer without its colour, reset and clear escapes. -/
theorem output_agrees_iff (buf : CString) (hlen : buf.length ≤ 4096) (color : UInt8) :
    (ttyWrite buf color).2.sent.map Prod.fst = (items buf).flatMap Item.kept ∧
    ((ttyWrite buf color).1 = (items buf).flatMap Item.kept ↔ ∀ cmd, .unknown cmd ∉ items buf) ∧
    ((ttyWrite buf color).1 = (items buf).flatMap Item.kept ∧
        (ttyWrite buf color).2.sent = shown color (items buf) ↔
      (∀ cmd, .unknown cmd ∉ items buf) ∧ ColorsKept color (items buf)) := by
  rw [ttyWrite, take_of_length_le hlen, (writes_items buf).1,
    (writes_items buf).2]
  refine ⟨foldl_chars (items buf) ⟨[], color, []⟩, serial_eq_iff _, ?_⟩
  dsimp only
  rw [serial_eq_iff]
  refine and_congr_right fun hknown => ?_
  rw [foldl_sent hknown (by simp)]
  exact painted_eq_shown_iff color hknown []

def letter : CChar := ⟨0x61, by decide⟩

/-- A batch is full with the 127th letter, and the escape behind it colours the next one. -/
theorem output_agrees_iff_batches :
    let buf := replicate 127 letter ++ [ttyEsc, ttyCmdColor, letter, letter]
    ColorsKept 0x0F (items buf) ∧ (ttyWrite buf 0x0F).2.sent.getLast? = some (letter, 0x61) :=
  ⟨((output_agrees_iff _ (by simp) 0x0F).2.2.1 (by decide +kernel)).2, by decide +kernel⟩

/-- The port loses a character behind ESC, a colour escape colours the character before it, and a
clear escape the one behind it. -/
theorem output_differs : (ttyWrite [ttyEsc, letter] 0x0F).1 = [ttyEsc] ∧
    (ttyWrite [ttyEsc, letter] 0x0F).2.sent = [(ttyEsc, 0x0F), (letter, 0x0F)] ∧
    (ttyWrite [letter, ttyEsc, ttyCmdColor, letter] 0x0F).2.sent = [(letter, 0x61)] ∧
    shown 0x0F (items [letter, ttyEsc, ttyCmdColor, letter]) = [(letter, 0x0F)] ∧
    (ttyWrite [ttyEsc, ttyCmdColor, letter, ttyEsc, ttyCmdClear, letter] 0x0F).2.sent =
      [(letter, 0x0F)] ∧
    shown 0x0F (items [ttyEsc, ttyCmdColor, letter, ttyEsc, ttyCmdClear, letter]) =
      [(letter, 0x61)] := by
  decide

end AosKernel.Tty
