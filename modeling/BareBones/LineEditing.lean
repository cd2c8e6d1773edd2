-- `read_line` of the shell: what it returns is the typed line after its backspaces, and the
-- screen shows the same, whatever was typed.
import BareBones.TextScreen

namespace bare_bones.stdio

open runs terminal byte_memory bare_bones.video
open bare_bones.pixels (bytesOf)

/-- The state of the loop: the bytes from `dst` on, and the screen. -/
structure Reading where
  dst : Nat → UInt8
  len : Nat
  video : Video

/-- Of the byte that the system call reads. -/
def getchar (b : UInt8) : Int := if b = 0xFF then -1 else b.toNat

/-- `sys_write` to the standard output, when that is the screen. -/
def putchar (d : Screen) (c : UInt8) (v : Video) : Video :=
  if c = 0xFF then v else printChar d c v

/-- One turn of the loop of `read_line`, of a character that does not end the line. -/
def readKey (d : Screen) (maxlen : Int) (r : Reading) (b : UInt8) : Reading :=
  let c := getchar b
  if c = 0 then r
  else if c = 8 then
    if 0 < r.len then
      { r with video := putchar d 8 (putchar d 32 (putchar d 8 r.video)), len := r.len - 1 }
    else r
  else if r.len < maxlen - 1 then
    { dst := Function.update r.dst r.len (UInt8.ofInt c)
      len := r.len + 1
      video := putchar d (UInt8.ofInt c) r.video }
  else r

/-- `none`: it still waits for a key. -/
def read_loop (d : Screen) (maxlen : Int) : List UInt8 → Reading → Option Reading
  | [], _ => none
  | b :: keys, r =>
    if getchar b = 10 then some { r with video := putchar d 10 r.video }
    else read_loop d maxlen keys (readKey d maxlen r b)

def read_line (d : Screen) (dst : Nat → UInt8) (maxlen : Int) (keys : List UInt8) (v : Video) :
    Option (Nat × Reading) :=
  if maxlen ≤ 1 then some (0, ⟨dst, 0, v⟩)
  else (read_loop d maxlen keys ⟨dst, 0, v⟩).map fun r =>
    (r.len, { r with dst := Function.update r.dst r.len 0 })

/-! ## Editing a line -/

/-- What one key makes of a line of at most `limit` characters. -/
def edit (limit : Nat) (s : List UInt8) (b : UInt8) : List UInt8 :=
  if b = 0 then s
  else if b = 8 then s.dropLast
  else if s.length < limit then s ++ [b]
  else s

def edited (limit : Nat) (keys : List UInt8) : List UInt8 := keys.foldl (edit limit) []

/-- The console with a line typed on it. -/
def typed (k : Console) (s : List UInt8) (q : Page (UInt8 × Color)) : Console :=
  { k with text := k.text ++ s, page := q }

section Keys

variable {d : Screen} {framebuffer : Nat} {m : Memory} {v : Video} {k : Console}
  {dst : Nat → UInt8} {maxlen : Int} {limit : Nat} {r : Reading} {s : List UInt8} {b : UInt8}

theorem getchar_eq (hb : b ≠ 0xFF) : getchar b = b.toNat := if_neg hb

theorem getchar_eq_iff (hb : b ≠ 0xFF) {n : Nat} (hn : n < 256) :
    getchar b = n ↔ b = UInt8.ofNat n := by
  rw [getchar_eq hb, Int.natCast_inj, ← UInt8.toNat_inj, UInt8.toNat_ofNat', Nat.mod_eq_of_lt hn]

theorem ofInt_getchar (hb : b ≠ 0xFF) : UInt8.ofInt (getchar b) = b := by
  rw [getchar_eq hb]
  have hlt := b.toNat_lt
  have hmod : ((b.toNat : Int) % 2 ^ 8).toNat = b.toNat := by omega
  rw [UInt8.ofInt, hmod]
  exact UInt8.ofNat_toNat

/-- Of a character that the screen shows in a cell of its own. -/
theorem displays_putchar (h : Displays d framebuffer m v k) (hb : b ≠ 8 ∧ b ≠ 10 ∧ b ≠ 0xFF)
    (hroom : k.text.length < MAX_RESOLUTION) :
    Displays d framebuffer m (putchar d b v)
      { k with
        text := k.text ++ [b]
        page := k.page.put (columns d k.font) (rows d k.font) (cellOf k.fontColor b) } := by
  have hprinted := displays_printChar h (c := b) fun h8 => absurd h8 hb.1
  rw [Console.print, if_neg hb.1, if_neg (Nat.ne_of_lt hroom), Console.store, if_neg hb.2.1]
    at hprinted
  rwa [putchar, if_neg hb.2.2]

theorem displays_putchar_newline (h : Displays d framebuffer m v k)
    (hroom : k.text.length < MAX_RESOLUTION) :
    Displays d framebuffer m (putchar d 10 v)
      { k with text := k.text ++ [10], page := k.page.newline (rows d k.font) } := by
  have hprinted := displays_printChar h (c := 10) fun h8 => absurd h8 (by decide)
  rwa [Console.print, if_neg (by decide), if_neg (Nat.ne_of_lt hroom)] at hprinted

theorem displays_putchar_back (h : Displays d framebuffer m v k)
    (he : 0 < k.text.length ∧ (0 < k.page.column ∨ k.page.top < k.page.row)) :
    Displays d framebuffer m (putchar d 8 v) (k.erase d) :=
  displays_eraseChar h ((erases_iff h).mpr he)

/-- The screen and the bytes from `dst` on hold the line so far. -/
structure Editing (d : Screen) (framebuffer : Nat) (m : Memory) (k : Console) (dst : Nat → UInt8)
    (limit : Nat) (r : Reading) (s : List UInt8) : Prop where
  len : r.len = s.length
  line : ∀ i (h : i < s.length), r.dst i = s[i]
  rest : ∀ i, limit ≤ i → r.dst i = dst i
  shown : ∃ q, Displays d framebuffer m r.video (typed k s q) ∧
    Typed (columns d k.font) (rows d k.font) limit k.page (s.map (cellOf k.fontColor)) q

theorem Editing.few (h : Editing d framebuffer m k dst limit r s) : s.length ≤ limit := by
  obtain ⟨q, -, htyped⟩ := h.shown
  simpa using htyped.few

theorem editing_nothing (h : Displays d framebuffer m v k) (dst : Nat → UInt8) (limit : Nat) :
    Editing d framebuffer m k dst limit ⟨dst, 0, v⟩ [] where
  len := rfl
  line := fun i hi => absurd hi (Nat.not_lt_zero i)
  rest := fun _ _ => rfl
  shown := by
    refine ⟨k.page, ?_, Typed.nothing h.inView limit⟩
    rwa [typed, List.append_nil]

/-- A character more. -/
theorem editing_type (h : Editing d framebuffer m k dst limit r s) (hlimit : s.length < limit)
    (hroom : k.text.length + limit < MAX_RESOLUTION) (hb : b ≠ 8 ∧ b ≠ 10 ∧ b ≠ 0xFF) :
    Editing d framebuffer m k dst limit
      ⟨Function.update r.dst r.len b, r.len + 1, putchar d b r.video⟩ (s ++ [b]) where
  len := by simp [h.len]
  line := by
    intro i hi
    rw [List.length_append, List.length_singleton] at hi
    by_cases hlast : i = s.length
    · simp [h.len, hlast]
    · have hlt : i < s.length := by omega
      rw [List.getElem_append_left hlt, ← h.line i hlt, h.len]
      exact Function.update_of_ne hlast ..
  rest := by
    intro i hi
    have hne : i ≠ r.len := by
      have hlen := h.len
      omega
    exact (Function.update_of_ne hne ..).trans (h.rest i hi)
  shown := by
    obtain ⟨q, hdisplays, htyped⟩ := h.shown
    have hlength : (k.text ++ s).length < MAX_RESOLUTION := by
      rw [List.length_append]
      omega
    refine ⟨q.put (columns d k.font) (rows d k.font) (cellOf k.fontColor b), ?_, ?_⟩
    · rw [typed, ← List.append_assoc]
      exact displays_putchar hdisplays hb hlength
    · rw [List.map_append, List.map_singleton]
      exact htyped.put (by simpa using hlimit) _

theorem typed_erase (d : Screen) (k : Console) (s : List UInt8) (b : UInt8)
    (q : Page (UInt8 × Color)) :
    (typed k (s ++ [b]) q).erase d = typed k s (q.back (columns d k.font)) := by
  have htext : (k.text ++ (s ++ [b])).dropLast = k.text ++ s := by
    rw [← List.append_assoc, List.dropLast_concat]
  simp only [Console.erase, typed, htext]

/-- A character less: the blank that is printed over it is erased too. -/
theorem editing_erase (h : Editing d framebuffer m k dst limit r (s ++ [b]))
    (hroom : k.text.length + limit < MAX_RESOLUTION)
    (hfits : limit ≤ (rows d k.font - 1) * columns d k.font) :
    Editing d framebuffer m k dst limit
      { r with video := putchar d 8 (putchar d 32 (putchar d 8 r.video)), len := r.len - 1 } s where
  len := by simp [h.len]
  line := by
    intro i hi
    rw [h.line i (by simp; omega), List.getElem_append_left hi]
  rest := h.rest
  shown := by
    obtain ⟨q, hdisplays, htyped⟩ := h.shown
    have hfew := h.few
    rw [List.length_append, List.length_singleton] at hfew
    rw [List.map_append, List.map_singleton] at htyped
    have hcorner := htyped.not_corner (by simp) hfits
    have hback := displays_putchar_back hdisplays ⟨by simp [typed], hcorner⟩
    rw [typed_erase] at hback
    have hblank := displays_putchar hback (b := 32) (by decide) (by simp [typed]; omega)
    have hgone := htyped.back hfits
    have hover := hgone.put (by simp; omega) (cellOf k.fontColor 32)
    have hcorner' := hover.not_corner (by simp) hfits
    have hagain := displays_putchar_back hblank ⟨by simp, hcorner'⟩
    refine ⟨_, ?_, hover.back hfits⟩
    have hconsole := typed_erase d k s 32 ((q.back (columns d k.font)).put (columns d k.font)
      (rows d k.font) (cellOf k.fontColor 32))
    rw [typed, ← List.append_assoc] at hconsole
    exact hconsole ▸ hagain

theorem editing_readKey (h : Editing d framebuffer m k dst limit r s)
    (hmax : maxlen = limit + 1) (hroom : k.text.length + limit < MAX_RESOLUTION)
    (hfits : limit ≤ (rows d k.font - 1) * columns d k.font) (hb : b ≠ 10 ∧ b ≠ 0xFF) :
    Editing d framebuffer m k dst limit (readKey d maxlen r b) (edit limit s b) := by
  have hnul : getchar b = 0 ↔ b = 0 := getchar_eq_iff hb.2 (by decide)
  have hback : getchar b = 8 ↔ b = 8 := getchar_eq_iff hb.2 (by decide)
  have hlen : (r.len : Int) < maxlen - 1 ↔ s.length < limit := by
    rw [hmax, h.len]
    omega
  unfold readKey edit
  simp only [hnul, hback, hlen, ofInt_getchar hb.2]
  split
  · exact h
  · rename_i hb0
    split
    · rename_i hb8
      rcases List.eq_nil_or_concat' s with rfl | ⟨s, c, rfl⟩
      · have hzero : ¬ 0 < r.len := by simp [h.len]
        rw [if_neg hzero]
        exact h
      · have hpos : 0 < r.len := by simp [h.len]
        rw [if_pos hpos, List.dropLast_concat]
        exact editing_erase h hroom hfits
    · rename_i hb8
      split
      · rename_i hlimit
        exact editing_type h hlimit hroom ⟨hb8, hb⟩
      · exact h

theorem editing_keys {keys : List UInt8} (h : Editing d framebuffer m k dst limit r s)
    (hmax : maxlen = limit + 1) (hroom : k.text.length + limit < MAX_RESOLUTION)
    (hfits : limit ≤ (rows d k.font - 1) * columns d k.font)
    (hkeys : ∀ b ∈ keys, b ≠ 10 ∧ b ≠ 0xFF) :
    Editing d framebuffer m k dst limit (keys.foldl (readKey d maxlen) r)
      (keys.foldl (edit limit) s) := by
  induction keys generalizing r s with
  | nil => exact h
  | cons b keys ih =>
    have hnext := editing_readKey h hmax hroom hfits (hkeys b List.mem_cons_self)
    exact ih hnext fun c hc => hkeys c (List.mem_cons_of_mem b hc)

/-- The loop ends at the first new line. -/
theorem read_loop_eq {keys : List UInt8} (hkeys : ∀ b ∈ keys, b ≠ 10 ∧ b ≠ 0xFF)
    (later : List UInt8) (r : Reading) :
    read_loop d maxlen (keys ++ 10 :: later) r =
      some { keys.foldl (readKey d maxlen) r with
        video := putchar d 10 (keys.foldl (readKey d maxlen) r).video } := by
  induction keys generalizing r with
  | nil => rfl
  | cons b keys ih =>
    have hb := hkeys b List.mem_cons_self
    have hline : ¬ getchar b = 10 := fun h => hb.1 ((getchar_eq_iff hb.2 (by decide)).mp h)
    rw [List.cons_append, read_loop, if_neg hline]
    exact ih (fun c hc => hkeys c (List.mem_cons_of_mem b hc)) _

end Keys

/-- Whatever keys come before the new line, `read_line` returns the line that they edit, with a 0
behind it and nothing stored from `maxlen` on, and the screen shows that line and the new line
where the cursor was, though the rows may have moved up. -/
theorem the_screen_shows_the_line_that_is_read {d : Screen} {framebuffer : Nat} {m : Memory}
    {v : Video} {k : Console} (h : Displays d framebuffer m v k) (dst : Nat → UInt8)
    {limit : Nat} (hlimit : 0 < limit) (hroom : k.text.length + limit < MAX_RESOLUTION)
    (hfits : limit ≤ (rows d k.font - 1) * columns d k.font) {keys : List UInt8}
    (hkeys : ∀ b ∈ keys, b ≠ 10 ∧ b ≠ 0xFF) (later : List UInt8) :
    let s := edited limit keys
    ∃ r q, read_line d dst (limit + 1) (keys ++ 10 :: later) v = some (s.length, r) ∧
      (∀ i (h : i < s.length), r.dst i = s[i]) ∧ r.dst s.length = 0 ∧
      (∀ i, limit < i → r.dst i = dst i) ∧
      Scrolled ((k.page.putAll (columns d k.font) (rows d k.font)
        (s.map (cellOf k.fontColor))).newline (rows d k.font)) q ∧
      Displays d framebuffer m r.video (typed k (s ++ [10]) q) ∧
      ∀ x < d.width, ∀ y < d.height, pixel framebuffer d (shown framebuffer m r.video) x y =
        bytesOf (picture d (typed k (s ++ [10]) q) x y) := by
  intro s
  have hediting : Editing d framebuffer m k dst limit
      (keys.foldl (readKey d (limit + 1)) ⟨dst, 0, v⟩) s :=
    editing_keys (editing_nothing h dst limit) rfl hroom hfits hkeys
  have hfew := hediting.few
  have hloop : read_loop d (limit + 1) (keys ++ 10 :: later) ⟨dst, 0, v⟩ = _ :=
    read_loop_eq hkeys later ⟨dst, 0, v⟩
  generalize keys.foldl (readKey d (limit + 1)) ⟨dst, 0, v⟩ = r at hediting hloop
  obtain ⟨q, hdisplays, htyped⟩ := hediting.shown
  have hlength : (typed k s q).text.length < MAX_RESOLUTION := by
    rw [typed, List.length_append]
    omega
  have hline := displays_putchar_newline hdisplays hlength
  have hsame : Console.mk (typed k s q).font (typed k s q).fontColor ((typed k s q).text ++ [10])
      (q.newline (rows d k.font)) = typed k (s ++ [10]) (q.newline (rows d k.font)) := by
    simp [typed]
  have hend : Displays d framebuffer m (putchar d 10 r.video)
      (typed k (s ++ [10]) (q.newline (rows d k.font))) := hsame ▸ hline
  refine ⟨⟨Function.update r.dst r.len 0, r.len, putchar d 10 r.video⟩,
    q.newline (rows d k.font), ?_, ?_, ?_, ?_, htyped.scrolled.newline, hend, hend.shows.pixels⟩
  · have hnot : ¬ (limit + 1 : Int) ≤ 1 := by omega
    rw [read_line, if_neg hnot, hloop, ← hediting.len]
    rfl
  · intro i hi
    rw [← hediting.line i hi, hediting.len]
    exact Function.update_of_ne (Nat.ne_of_lt hi) ..
  · rw [hediting.len]
    exact Function.update_self ..
  · intro i hi
    have hne : i ≠ r.len := by
      rw [hediting.len]
      omega
    exact (Function.update_of_ne hne ..).trans (hediting.rest i (Nat.le_of_lt hi))

/-- Two letters with a backspace between them, on the cleared screen. -/
theorem the_screen_shows_the_line_that_is_read_of_two_letters :
    let d := vesa
    let m : Memory := ⟨fun _ => 0, []⟩
    let k : Console := ⟨0, BLACK, [], Page.blank⟩
    let s := edited 255 [97, 8, 98]
    ∃ r q, read_line d (fun _ => 1) (255 + 1) ([97, 8, 98] ++ 10 :: [99])
        (videoClear d (cleared BLACK 0)) = some (s.length, r) ∧
      (∀ i (h : i < s.length), r.dst i = s[i]) ∧ r.dst s.length = 0 ∧
      (∀ i, 255 < i → r.dst i = (fun _ => 1) i) ∧
      Scrolled ((k.page.putAll (columns d k.font) (rows d k.font)
        (s.map (cellOf k.fontColor))).newline (rows d k.font)) q ∧
      Displays d 0xFD000000 m r.video (typed k (s ++ [10]) q) ∧
      ∀ x < d.width, ∀ y < d.height, pixel 0xFD000000 d (shown 0xFD000000 m r.video) x y =
        bytesOf (picture d (typed k (s ++ [10]) q) x y) :=
  the_screen_shows_the_line_that_is_read (displays_start vesa 0xFD000000 _ BLACK 0) _
    (by decide) (by decide) (by decide) (by simp) [99]

end bare_bones.stdio
