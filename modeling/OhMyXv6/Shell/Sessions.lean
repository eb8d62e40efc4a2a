import OhMyXv6.Shell.HistoryFile

/-!
# The history survives sessions

`W` are the lines of the history file, oldest first. The loop of `load_history` is taken apart at the
newlines that it finds, and gives the lines behind them; the rest is left for the next time, or is the
first line of the file.
-/

namespace OhMyXv6
namespace Sh

open Console Lines

/-- A line that `getcmd` returns, without its newline. -/
structure Typable (line : Str) : Prop where
  newline : chr '\n' ∉ line
  nul : (0 : UInt8) ∉ line
  length : line.length < 100

/-- The lines that `load_history` makes out of those of the file. -/
def shown : List Str → List Str
  | [] :: w :: W => (chr '\n' :: w) :: W
  | W => W

section
variable {W U V : List Str}

/-- Later commands are shown as they are. -/
lemma shown_append (h : 1 < (join (chr '\n') U).length) : shown (U ++ V) = shown U ++ V := by
  match U with
  | [] => simp at h
  | [[]] => simp at h
  | [c :: w] => rfl
  | [] :: w :: U => rfl
  | (c :: w) :: w' :: U => rfl

/-! ## The loop of `load_history` -/

/-- One turn of the loop, at a byte with something in front of it. -/
theorem scan_at (x y : List UInt8) (c : UInt8) (last_nl : ℕ) (hx : x ≠ []) :
    scan x.length (x ++ c :: y) last_nl =
      if c = chr '\n' then
        let rest := scan (x.length - 1) (x ++ 0 :: y) x.length
        (rest.1, rest.2.1, cstr y 0 :: rest.2.2)
      else scan (x.length - 1) (x ++ c :: y) last_nl := by
  have hpos : 0 < x.length := List.length_pos_iff.mpr hx
  obtain ⟨n, hn⟩ : ∃ n, x.length = n + 1 := ⟨x.length - 1, by omega⟩
  have hat : (x ++ c :: y).getD (n + 1) 0 = c := by
    rw [← hn, List.getD_eq_getElem?_getD, List.getElem?_append_right (Nat.le_refl _)]
    simp
  have hset : (x ++ c :: y).set (n + 1) 0 = x ++ 0 :: y := by
    rw [← hn, List.set_append_right _ _ (Nat.le_refl _)]
    simp
  have hstr : cstr (x ++ c :: y) (n + 2) = cstr y 0 := by
    unfold cstr
    rw [show n + 2 = x.length + 1 by omega, ← List.drop_drop, List.drop_left]
    rfl
  rw [hn, scan, hat, hset, hstr, Nat.add_sub_cancel]

/-- The loop passes over bytes that are no newlines. -/
lemma scan_skip (v : List UInt8) {x : List UInt8} (last_nl : ℕ) (hx : x ≠ [])
    (hv : chr '\n' ∉ v) : ∀ y, scan ((x ++ v).length - 1) (x ++ v ++ y) last_nl =
      scan (x.length - 1) (x ++ v ++ y) last_nl := by
  induction v using List.reverseRecOn with
  | nil => simp
  | append_singleton v c ih =>
    intro y
    have hne : c ≠ chr '\n' := by
      intro heq
      exact hv (by simp [heq])
    have hrest := ih (fun hmem => hv (List.mem_append_left _ hmem)) (c :: y)
    have hlen : (x ++ (v ++ [c])).length - 1 = (x ++ v).length := by
      simp only [List.length_append, List.length_singleton]
      omega
    have hbuf : x ++ (v ++ [c]) ++ y = x ++ v ++ c :: y := by simp
    rw [hlen, hbuf, scan_at _ _ _ _ (by simp [hx]), if_neg hne, hrest]

lemma cstr_append {w : Str} (hw : (0 : UInt8) ∉ w) (y : List UInt8) : cstr (w ++ 0 :: y) 0 = w := by
  unfold cstr
  rw [List.drop_zero, List.takeWhile_append_of_pos]
  · simp
  · intro b hb
    simp only [decide_eq_true_eq]
    exact fun hzero => hw (hzero ▸ hb)

/-- The lines of `V` are behind newlines: the loop finds them all. -/
theorem scan_lines (V : List Str) {x : UInt8} {w : Str} (hw : chr '\n' ∉ w)
    (hV : ∀ v ∈ V, Typable v) : ∀ y, ∃ y',
      scan ((x :: w ++ V.flatMap (chr '\n' :: ·)).length - 1)
          (x :: w ++ V.flatMap (chr '\n' :: ·) ++ 0 :: y)
          (x :: w ++ V.flatMap (chr '\n' :: ·)).length =
        (x :: w ++ 0 :: y', w.length + 1, V.reverse) := by
  induction V using List.reverseRecOn with
  | nil =>
    intro y
    refine ⟨y, ?_⟩
    have hskip := scan_skip w (x := [x]) (w.length + 1) (List.cons_ne_nil _ _) hw (0 :: y)
    simp only [List.flatMap_nil, List.append_nil, List.length_cons]
    exact hskip
  | append_singleton V v ih =>
    intro y
    have hv := hV v (by simp)
    obtain ⟨y', hy'⟩ := ih (fun u hu => hV u (List.mem_append_left _ hu)) (v ++ 0 :: y)
    refine ⟨y', ?_⟩
    generalize hfront : x :: w ++ V.flatMap (chr '\n' :: ·) = front at *
    have hne : front ≠ [] := by
      rw [← hfront]
      simp
    have hall : x :: w ++ (V ++ [v]).flatMap (chr '\n' :: ·) = front ++ [chr '\n'] ++ v := by
      rw [← hfront]
      simp
    have hskip := scan_skip v (x := front ++ [chr '\n']) (front ++ [chr '\n'] ++ v).length
      (by simp) hv.newline (0 :: y)
    have hlen : (front ++ [chr '\n']).length - 1 = front.length := by simp
    have hbuf : front ++ [chr '\n'] ++ v ++ 0 :: y = front ++ chr '\n' :: (v ++ 0 :: y) := by simp
    -- At the newline in front of `v`, the string behind it is `v`.
    rw [hall, hskip, hlen, hbuf, scan_at _ _ _ _ hne, if_pos rfl, hy', cstr_append hv.nul,
      List.reverse_append]
    rfl

/-- Newlines before or behind the lines. -/
lemma cons_join (V : List Str) : chr '\n' :: join (chr '\n') V =
    V.flatMap (chr '\n' :: ·) ++ [chr '\n'] := by
  induction V with
  | nil => rfl
  | cons v V ih => rw [join_cons, ih, List.flatMap_cons, List.append_assoc, List.cons_append]

/-- What `load_history` makes of the bytes it has read, once they have a newline at their end. -/
theorem load_history_eq {f : HistFile} {D E front : List UInt8} (htop : f.topped = false)
    (hdata : f.file.data = D ++ E) (hpos : f.pos = D.length)
    (hread : D.drop (D.length - 255) = front ++ [chr '\n']) :
    ∃ off, load_history f =
      let z := scan (front.length - 1) (front ++ 0 :: [0]) front.length
      if D.length ≤ 255 then (⟨⟨f.file.data, off⟩, 0, true⟩, z.2.2 ++ [cstr z.1 0])
      else (⟨⟨f.file.data, off⟩, D.length - 255 + z.2.1 + 1, false⟩, z.2.2) := by
  have hseek : f.file.fileseek ((f.pos : ℤ) - DEFAULT_LOAD) .set =
      (⟨f.file.data, D.length - 255⟩, D.length - 255) := by
    have hoff : min ((f.pos : ℤ) - DEFAULT_LOAD).toNat f.file.data.length = D.length - 255 := by
      rw [hdata, hpos, List.length_append]
      simp only [DEFAULT_LOAD]
      omega
    unfold File.fileseek
    dsimp only
    rw [hoff]
  have hbytes : (f.file.data.drop (D.length - 255)).take (f.pos - (D.length - 255)) =
      front ++ [chr '\n'] := by
    rw [← hread, hdata, hpos, List.drop_append_of_le_length (Nat.sub_le _ _),
      List.take_append_of_le_length (by rw [List.length_drop]), List.take_of_length_le]
    rw [List.length_drop]
  have hset : (front ++ [chr '\n']).set front.length 0 ++ [0] = front ++ 0 :: [0] := by
    rw [List.set_append_right _ _ (Nat.le_refl _)]
    simp
  have htopped : (false || D.length - 255 == 0) = decide (D.length ≤ 255) := by
    rw [Bool.false_or, Bool.eq_iff_iff]
    simp only [beq_iff_eq, decide_eq_true_eq]
    omega
  refine ⟨D.length - 255 + (front ++ [chr '\n']).length, ?_⟩
  unfold load_history
  simp only [hseek, File.fileread, hbytes, htop, htopped]
  rw [if_neg (by simp)]
  simp only [List.length_append, List.length_singleton, Nat.add_sub_cancel, hset,
    show front.length + 1 - 2 = front.length - 1 by omega]
  by_cases hle : D.length ≤ 255
  · simp [hle, show D.length - 255 = 0 by omega]
  · simp [hle]

/-- The file holds the lines `W`. The commands `rest` are still to be loaded, in this order. -/
structure Loads (W : List Str) (f : HistFile) (rest : List Str) : Prop where
  data : f.file.data = join (chr '\n') W
  rest : f.topped = true ∧ rest = [] ∨ f.topped = false ∧ ∃ U V, W = U ++ V ∧
    f.pos = (join (chr '\n') U).length ∧ rest = (shown U).reverse

/-- The lines up to `f.pos` fit into the buffer: they are all loaded. -/
theorem load_top {f : HistFile} (hU : ∀ w ∈ U, Typable w) (htop : f.topped = false)
    (hdata : f.file.data = join (chr '\n') (U ++ V)) (hpos : f.pos = (join (chr '\n') U).length)
    (hle : (join (chr '\n') U).length ≤ 255) :
    (load_history f).1.file.data = f.file.data ∧ (load_history f).1.topped = true ∧
      (load_history f).2 = (shown U).reverse := by
  rw [join_append] at hdata
  have hdrop : ∀ {front : List UInt8}, join (chr '\n') U = front ++ [chr '\n'] →
      (join (chr '\n') U).drop ((join (chr '\n') U).length - 255) = front ++ [chr '\n'] := by
    intro front hfront
    rw [show (join (chr '\n') U).length - 255 = 0 by omega, List.drop_zero, hfront]
  -- There is a first byte, which is not looked at, and lines behind it.
  have hlines : ∀ (x : UInt8) (w : Str) (R : List Str), join (chr '\n') U = x :: w ++
      chr '\n' :: join (chr '\n') R → chr '\n' ∉ w → 0 ∉ x :: w → (∀ v ∈ R, Typable v) →
      (load_history f).1.file.data = f.file.data ∧ (load_history f).1.topped = true ∧
        (load_history f).2 = R.reverse ++ [x :: w] := by
    intro x w R hjoin hw hnul hR
    rw [cons_join, ← List.append_assoc] at hjoin
    obtain ⟨off, hload⟩ := load_history_eq htop hdata hpos (hdrop hjoin)
    obtain ⟨y', hscan⟩ := scan_lines R (x := x) hw hR [0]
    rw [hload]
    dsimp only
    rw [if_pos hle, hscan]
    refine ⟨rfl, rfl, ?_⟩
    show R.reverse ++ [cstr (x :: w ++ 0 :: y') 0] = _
    rw [cstr_append hnul]
  match U, hU with
  | [], _ =>
    have hzero : f.pos = 0 := hpos
    unfold load_history File.fileseek File.fileread
    simp [hzero, shown, DEFAULT_LOAD]
  | [[]], _ =>
    obtain ⟨off, hload⟩ := load_history_eq htop hdata hpos (@hdrop [] rfl)
    rw [hload]
    exact ⟨rfl, rfl, rfl⟩
  | [] :: w :: R, hU =>
    have hw := hU w (by simp)
    have hnul : (0 : UInt8) ∉ chr '\n' :: w := by
      intro hmem
      rcases List.mem_cons.mp hmem with h | h
      · exact absurd h (by decide)
      · exact hw.nul h
    have h := hlines (chr '\n') w R (by simp) hw.newline hnul
      (fun v hv => hU v (by simp [hv]))
    simpa [shown] using h
  | (c :: w) :: R, hU =>
    have hw := hU (c :: w) (by simp)
    have h := hlines c w R (by simp) (fun hmem => hw.newline (List.mem_cons_of_mem _ hmem)) hw.nul
      (fun v hv => hU v (by simp [hv]))
    simpa [shown] using h

/-- They do not fit. A line is shorter than the buffer, so that at least one of them is loaded. -/
theorem load_more {f : HistFile} (hU : ∀ w ∈ U, Typable w) (htop : f.topped = false)
    (hdata : f.file.data = join (chr '\n') (U ++ V)) (hpos : f.pos = (join (chr '\n') U).length)
    (hlong : 255 < (join (chr '\n') U).length) :
    ∃ U' V', U = U' ++ V' ∧ V' ≠ [] ∧ (load_history f).1.file.data = f.file.data ∧
      (load_history f).1.topped = false ∧ (load_history f).1.pos = (join (chr '\n') U').length ∧
      (load_history f).2 = V'.reverse ∧ 1 < (join (chr '\n') U').length := by
  rw [join_append] at hdata
  generalize hD : join (chr '\n') U = D at *
  have hlt : D.length - 255 + 1 < D.length := by omega
  obtain ⟨U', V', w, hsplit, hdrop, hlen, u, hu, hsuf⟩ :=
    exists_drop U (n := D.length - 255 + 1) (show _ < (join (chr '\n') U).length by rw [hD]; exact hlt)
  rw [hD] at hdrop
  have hu' := hU u (by rw [hsplit]; exact List.mem_append_left _ hu)
  have hw : chr '\n' ∉ w := fun hmem => hu'.newline (hsuf.subset hmem)
  have hV' : ∀ v ∈ V', Typable v := fun v hv => hU v (by rw [hsplit]; exact List.mem_append_right _ hv)
  obtain ⟨x, hx⟩ : ∃ x, D.drop (D.length - 255) = x :: D.drop (D.length - 255 + 1) :=
    ⟨_, List.drop_eq_getElem_cons (by omega)⟩
  have hread : D.drop (D.length - 255) = x :: w ++ V'.flatMap (chr '\n' :: ·) ++ [chr '\n'] := by
    rw [hx, hdrop, cons_join]
    simp
  obtain ⟨off, hload⟩ := load_history_eq htop hdata hpos hread
  obtain ⟨y', hscan⟩ := scan_lines V' (x := x) hw hV' [0]
  have hcount := congrArg List.length hdrop
  have hle := hsuf.length_le
  have hshort := hu'.length
  simp only [List.length_drop, List.length_append, List.length_cons] at hcount
  refine ⟨U', V', hsplit, ?_, ?_⟩
  · -- 254 bytes are more than the rest of a line
    intro hnil
    rw [hnil, join_nil, List.length_nil] at hcount
    omega
  · rw [hload]
    dsimp only
    rw [if_neg (by omega), hscan]
    refine ⟨rfl, rfl, ?_, rfl, by omega⟩
    show D.length - 255 + (w.length + 1) + 1 = _
    omega

/-- A call of `load_history` moves commands from the file to the list, and never none of them. -/
theorem Loads.load {f : HistFile} {rest : List Str} (hW : ∀ w ∈ W, Typable w) (h : Loads W f rest)
    (htop : f.topped = false) : ∃ rest', Loads W (load_history f).1 rest' ∧
      rest = (load_history f).2 ++ rest' ∧
      ((load_history f).2 = [] → (load_history f).1.topped = true) := by
  obtain ⟨htopped, -⟩ | ⟨-, U, V, hsplit, hpos, hrest⟩ := h.rest
  · rw [htop] at htopped
    cases htopped
  have hU : ∀ w ∈ U, Typable w := fun w hw => hW w (by rw [hsplit]; exact List.mem_append_left _ hw)
  have hdata := h.data
  rw [hsplit] at hdata
  by_cases hle : (join (chr '\n') U).length ≤ 255
  · obtain ⟨hfile, htopped, hcoms⟩ := load_top hU htop hdata hpos hle
    refine ⟨[], ⟨hfile.trans h.data, .inl ⟨htopped, rfl⟩⟩, ?_, fun _ => htopped⟩
    rw [hcoms, hrest, List.append_nil]
  · obtain ⟨U', V', hsplit', hne, hfile, htopped, hpos', hcoms, hlong⟩ :=
      load_more hU htop hdata hpos (by omega)
    refine ⟨(shown U').reverse, ⟨hfile.trans h.data, .inr ⟨htopped, U', V' ++ V, ?_, hpos', rfl⟩⟩, ?_, ?_⟩
    · rw [hsplit, hsplit', List.append_assoc]
    · rw [hrest, hsplit', shown_append hlong, hcoms, List.reverse_append]
    · intro hnil
      rw [hcoms, List.reverse_eq_nil_iff] at hnil
      exact absurd hnil hne

/-! ## The operations -/

/-- The file holds the lines `W`, and the user can go through the commands `v`, newest first. -/
structure Holds (W v : List Str) (h : History HistFile) : Prop where
  lines : ∀ w ∈ W, Typable w
  rest : ∃ rest, Loads W h.file rest ∧ v = h.next.reverse ++ (h.curr.toList ++ (h.prev ++ rest))
  loaded : h.next = [] → h.curr = none → h.prev = [] → h.file.topped = true

variable {v : List Str} {h : History HistFile}

lemma holds_init (hW : ∀ w ∈ W, Typable w) :
    Holds W (shown W).reverse (init_history (join (chr '\n') W)) := by
  have hstart : Loads W ⟨⟨join (chr '\n') W, 0⟩, (join (chr '\n') W).length, false⟩ (shown W).reverse :=
    ⟨rfl, .inr ⟨rfl, W, [], by simp, rfl, rfl⟩⟩
  obtain ⟨rest, hloads, hsplit, htop⟩ := hstart.load hW rfl
  exact ⟨hW, ⟨rest, hloads, hsplit⟩, fun _ _ hnil => htop hnil⟩

/-- What `get_prev_command` returns is the next of the commands in front of the current one. -/
theorem get_prev_spec (hW : ∀ w ∈ W, Typable w) (n : ℕ) : ∀ {h h' : History HistFile}
    {rest : List Str} {com : Option Str}, Loads W h.file rest →
    h.get_prev_command Sh.load n = some (h', com) →
    ∃ rest', Loads W h'.file rest' ∧
      (com = none ∧ h.prev ++ rest = [] ∧ h'.prev ++ rest' = [] ∧ h'.next = h.next ∧
          h'.curr = h.curr ∧ h'.file.topped = true ∨
        ∃ x, com = some x ∧ h.prev ++ rest = x :: (h'.prev ++ rest') ∧
          h'.next = h.curr.toList ++ h.next ∧ h'.curr = some x) := by
  induction n with
  | zero =>
    intro h h' rest com _ hget
    cases hget
  | succ n ih =>
    intro h h' rest com hloads hget
    unfold History.get_prev_command at hget
    cases hprev : h.prev with
    | nil =>
      rw [hprev] at hget
      -- nothing is left to load, or one more chunk is
      by_cases htop : h.file.topped = true
      · simp only [Sh.load, htop, if_true, Option.some.injEq, Prod.mk.injEq] at hget
        obtain ⟨rfl, rfl⟩ := hget
        have hnone : rest = [] := by
          obtain ⟨-, hnil⟩ | ⟨hfalse, -⟩ := hloads.rest
          · exact hnil
          · rw [htop] at hfalse
            cases hfalse
        exact ⟨rest, hloads, .inl ⟨rfl, hnone, by rw [hprev, hnone]; rfl, rfl, rfl, htop⟩⟩
      · rw [Bool.not_eq_true] at htop
        simp only [Sh.load, htop, Bool.false_eq_true, if_false] at hget
        obtain ⟨rest₁, hloads₁, hsplit, -⟩ := hloads.load hW htop
        obtain ⟨rest', hloads', hcase⟩ := ih hloads₁ hget
        refine ⟨rest', hloads', ?_⟩
        rw [List.nil_append, hsplit]
        exact hcase
    | cons x prev =>
      simp only [hprev, Option.some.injEq, Prod.mk.injEq] at hget
      obtain ⟨rfl, rfl⟩ := hget
      exact ⟨rest, hloads, .inr ⟨x, rfl, rfl, rfl, rfl⟩⟩

/-- It returns: it loads commands once at most. -/
lemma get_prev_isSome (hW : ∀ w ∈ W, Typable w) {rest : List Str} (hloads : Loads W h.file rest)
    (n : ℕ) : (h.get_prev_command Sh.load (n + 2)).isSome := by
  have htopped : ∀ (m : ℕ) (g : History HistFile), g.prev ≠ [] ∨ g.file.topped = true →
      (g.get_prev_command Sh.load (m + 1)).isSome := by
    intro m g hg
    unfold History.get_prev_command
    cases hprev : g.prev with
    | nil =>
      have htop := hg.resolve_left fun hne => hne hprev
      simp [Sh.load, htop]
    | cons x prev => rfl
  by_cases hnow : h.prev ≠ [] ∨ h.file.topped = true
  · exact htopped (n + 1) h hnow
  · rw [not_or, not_not, Bool.not_eq_true] at hnow
    obtain ⟨hprev, htop⟩ := hnow
    obtain ⟨rest', hloads', -, hsome⟩ := hloads.load hW htop
    unfold History.get_prev_command
    simp only [hprev, Sh.load, htop, Bool.false_eq_true, if_false]
    apply htopped
    by_cases hnil : (load_history h.file).2 = []
    · exact .inr (hsome hnil)
    · exact .inl hnil

/-- Recalling changes nothing in the file. -/
lemma Holds.get_prev {com : Option Str} {h' : History HistFile} (hh : Holds W v h) {n : ℕ}
    (hget : h.get_prev_command Sh.load n = some (h', com)) : Holds W v h' := by
  obtain ⟨rest, hloads, hv⟩ := hh.rest
  obtain ⟨rest', hloads', hcase⟩ := get_prev_spec hh.lines n hloads hget
  obtain ⟨-, hnil, hnil', hnext, hcurr, htop⟩ | ⟨x, -, hcons, hnext, hcurr⟩ := hcase
  · refine ⟨hh.lines, ⟨rest', hloads', ?_⟩, fun _ _ _ => htop⟩
    rw [hv, hnil, hnil', hnext, hcurr]
  · refine ⟨hh.lines, ⟨rest', hloads', ?_⟩, fun _ hnone => ?_⟩
    · have hone : h.curr.toList.reverse = h.curr.toList := by
        cases h.curr with
        | none => rfl
        | some x => rfl
      rw [hv, hcons, hnext, hcurr, List.reverse_append, hone]
      simp
    · rw [hcurr] at hnone
      cases hnone

lemma Holds.get_next (hh : Holds W v h) : Holds W v h.get_next_command.1 := by
  obtain ⟨rest, hloads, hv⟩ := hh.rest
  unfold History.get_next_command
  cases hnext : h.next with
  | nil =>
    refine ⟨hh.lines, ⟨rest, hloads, ?_⟩, fun _ _ hprev => ?_⟩
    · rw [hv, hnext]
      simp
    · rw [List.append_eq_nil_iff, Option.toList_eq_nil_iff] at hprev
      exact hh.loaded hnext hprev.1 hprev.2
  | cons x next =>
    refine ⟨hh.lines, ⟨rest, hloads, ?_⟩, fun _ hnone => ?_⟩
    · rw [hv, hnext]
      simp
    · cases hnone

lemma Holds.reset (hh : Holds W v h) : Holds W v h.reset_command_position ∧
    h.reset_command_position.prev.head? = v.head? := by
  obtain ⟨rest, hloads, hv⟩ := hh.rest
  have hall : v = h.reset_command_position.prev ++ rest := by
    rw [hv]
    simp [History.reset_command_position]
  have htop : h.reset_command_position.prev = [] → h.file.topped = true := by
    intro hnil
    simp only [History.reset_command_position, List.append_eq_nil_iff, List.reverse_eq_nil_iff,
      Option.toList_eq_nil_iff] at hnil
    exact hh.loaded hnil.1 hnil.2.1 hnil.2.2
  refine ⟨⟨hh.lines, ⟨rest, hloads, hall⟩, fun _ _ => htop⟩, ?_⟩
  cases hprev : h.reset_command_position.prev with
  | cons x prev => rw [hall, hprev, List.cons_append, List.head?_cons, List.head?_cons]
  | nil =>
    -- nothing is loaded, so there is nothing to load
    obtain ⟨-, hnone⟩ | ⟨hfalse, -⟩ := hloads.rest
    · rw [hall, hprev, hnone, List.append_nil]
    · rw [htop hprev] at hfalse
      cases hfalse

/-- The line fits into the file. -/
def Fits (W : List Str) (line : Str) : Prop :=
  (join (chr '\n') (W ++ [line])).length ≤ MAXFILE * BSIZE

/-- The line is appended, if it fits. -/
lemma write_eof {f : File} {bytes : List UInt8} : ((f.fileseek 0 .eof).1.filewrite bytes).data =
    if f.data.length + bytes.length ≤ MAXFILE * BSIZE then f.data ++ bytes else f.data := by
  have hseek : (f.fileseek 0 .eof).1 = ⟨f.data, f.data.length⟩ := by
    simp [File.fileseek]
  rw [hseek]
  unfold File.filewrite
  dsimp only
  by_cases hfits : f.data.length + bytes.length ≤ MAXFILE * BSIZE
  · rw [if_neg (by omega), if_pos hfits]
    simp
  · rw [if_pos (.inr (by omega)), if_neg hfits]

/-- `log_command`: the line is the newest already, or it is added to the list, and to the file if it
fits. -/
theorem Holds.log {line : Str} (hh : Holds W v h) (hline : Typable line) :
    (v.head? = some line → Holds W v (log_command (line ++ [chr '\n']) h)) ∧
    (v.head? ≠ some line → Fits W line →
      Holds (W ++ [line]) (line :: v) (log_command (line ++ [chr '\n']) h)) ∧
    (v.head? ≠ some line → ¬ Fits W line →
      Holds W (line :: v) (log_command (line ++ [chr '\n']) h)) := by
  obtain ⟨hreset, hhead⟩ := hh.reset
  obtain ⟨rest, hloads, hv⟩ := hreset.rest
  have hfile : (((h.reset_command_position.file.file.fileseek 0 .eof).1.filewrite
      (line ++ [chr '\n'])).data = if (join (chr '\n') (W ++ [line])).length ≤ MAXFILE * BSIZE then
        join (chr '\n') (W ++ [line]) else join (chr '\n') W) := by
    rw [write_eof, hloads.data, ← List.length_append, ← join_concat]
  unfold log_command
  dsimp only
  rw [List.dropLast_concat, hhead]
  refine ⟨fun hsame => ?_, fun hne hfits => ?_, fun hne hfull => ?_⟩
  · rw [if_pos hsame]
    exact hreset
  · rw [if_neg hne]
    refine ⟨?_, ⟨rest, ⟨?_, ?_⟩, ?_⟩, fun _ _ hnil => by cases hnil⟩
    · intro w hw
      rcases List.mem_append.mp hw with hw | hw
      · exact hh.lines w hw
      · rw [List.mem_singleton.mp hw]
        exact hline
    · exact hfile.trans (if_pos hfits)
    · -- what is still to be loaded stays where it is
      obtain ⟨htop, hnil⟩ | ⟨htop, U, V, hsplit, hpos, hrest⟩ := hloads.rest
      · exact .inl ⟨htop, hnil⟩
      · exact .inr ⟨htop, U, V ++ [line], by rw [hsplit, List.append_assoc], hpos, hrest⟩
    · rw [hv]
      rfl
  · rw [if_neg hne]
    exact ⟨hh.lines, ⟨rest, ⟨hfile.trans (if_neg hfull), hloads.rest⟩, by rw [hv]; rfl⟩,
      fun _ _ hnil => by cases hnil⟩

/-! ## Going through all commands -/

/-- The lines that were entered, without repetitions of the one before. -/
def collapsed (L : List Str) : List Str := L.destutter (· ≠ ·)

/-- The first line is not empty, or there is no other, and the file has room for all of them. -/
def Survives (D : List Str) : Prop :=
  (D = [[]] ∨ D.head? ≠ some []) ∧ (join (chr '\n') D).length ≤ MAXFILE * BSIZE

/-- Without an empty first line all are shown. -/
lemma shown_eq_self (hD : W = [[]] ∨ W.head? ≠ some []) : shown W = W := by
  match W with
  | [] => rfl
  | [[]] => rfl
  | [] :: w :: W => simp at hD
  | (c :: w) :: W => rfl

/-- Two lines fit in any case. -/
lemma fits_of_short {line : Str} (hW : ∀ w ∈ W, Typable w) (hline : Typable line)
    (hlen : W.length ≤ 1) : Fits W line := by
  have hlt := hline.length
  have hmax : MAXFILE * BSIZE = 71680 := rfl
  unfold Fits
  rw [hmax]
  match W with
  | [] =>
    simp only [List.nil_append, join_cons, join_nil, List.length_append, List.length_cons,
      List.length_nil]
    omega
  | [w] =>
    have hw := (hW w (by simp)).length
    simp only [List.cons_append, List.nil_append, join_cons, join_nil, List.length_append,
      List.length_cons, List.length_nil]
    omega
  | w :: w' :: W => simp at hlen

lemma survives_of_short {D : List Str} (hD : ∀ w ∈ D, Typable w) (hlen : D.length ≤ 1) :
    Survives D := by
  match D with
  | [] => exact ⟨.inr (by simp), Nat.zero_le _⟩
  | [w] =>
    refine ⟨?_, fits_of_short (W := []) (fun w hw => by cases hw) (hD w (by simp)) (Nat.zero_le _)⟩
    by_cases hw : w = []
    · exact .inl (by rw [hw])
    · exact .inr (by simpa using hw)
  | w :: w' :: D => simp at hlen

/-- After the lines `L` were entered: the file holds them if they can survive, and otherwise the first
two of them at least. -/
structure Stored (L : List Str) (h : History HistFile) : Prop where
  typable : ∀ x ∈ L, Typable x
  holds : ∃ W v, Holds W v h ∧ (join (chr '\n') W).length ≤ MAXFILE * BSIZE ∧
    (Survives (collapsed L) → W = collapsed L ∧ v = W.reverse) ∧
    W.head? = (collapsed L).head? ∧ (2 ≤ (collapsed L).length → 2 ≤ W.length)

variable {L : List Str}

/-- What is collapsed can be typed. -/
lemma typable_collapsed (hL : ∀ x ∈ L, Typable x) : ∀ x ∈ collapsed L, Typable x :=
  fun x hx => hL x ((List.destutter_sublist _ L).subset hx)

lemma Stored.log {line : Str} (hs : Stored L h) (hline : Typable line) :
    Stored (L ++ [line]) (log_command (line ++ [chr '\n']) h) := by
  obtain ⟨W, v, hh, hsize, hkept, hhead, htwo⟩ := hs.holds
  have hD := typable_collapsed hs.typable
  have hall : ∀ x ∈ L ++ [line], Typable x := by
    intro x hx
    rcases List.mem_append.mp hx with hx | hx
    · exact hs.typable x hx
    · rw [List.mem_singleton.mp hx]
      exact hline
  obtain ⟨hsame, hfits, hfull⟩ := hh.log hline
  have hcollapse : collapsed (L ++ [line]) =
      if (collapsed L).getLast? = some line then collapsed L else collapsed L ++ [line] :=
    destutter_concat L line
  generalize collapsed L = D at *
  refine ⟨hall, ?_⟩
  rw [hcollapse]
  by_cases hlive : Survives D
  · -- so far the file holds what it should
    obtain ⟨rfl, rfl⟩ := hkept hlive
    rw [List.head?_reverse] at hsame hfits hfull
    by_cases hlast : W.getLast? = some line
    · rw [if_pos hlast]
      exact ⟨W, W.reverse, hsame hlast, hsize, fun _ => ⟨rfl, rfl⟩, rfl, id⟩
    · rw [if_neg hlast]
      by_cases hfit : Fits W line
      · exact ⟨W ++ [line], line :: W.reverse, hfits hlast hfit, hfit,
          fun _ => ⟨rfl, by simp⟩, rfl, id⟩
      · have hlong : 2 ≤ W.length := by
          by_contra hshort
          exact hfit (fits_of_short hD hline (by omega))
        have hfirst : W.head? = (W ++ [line]).head? := by
          rw [List.head?_append_of_ne_nil _ (List.length_pos_iff.mp (by omega))]
        exact ⟨W, line :: W.reverse, hfull hlast hfit, hsize, fun hno => absurd hno.2 hfit,
          hfirst, fun _ => hlong⟩
  · -- it is too late: the first two lines stay where they are
    have hlong : 2 ≤ D.length := by
      by_contra hshort
      exact hlive (survives_of_short hD (by omega))
    have hW := htwo hlong
    have hne : W ≠ [] := List.length_pos_iff.mp (by omega)
    have hneD : D ≠ [] := List.length_pos_iff.mp (by omega)
    have hgrown : ∀ W', W' = W ∨ W' = W ++ [line] → W'.head? = W.head? ∧ 2 ≤ W'.length := by
      intro W' hW'
      rcases hW' with rfl | rfl
      · exact ⟨rfl, hW⟩
      · rw [List.head?_append_of_ne_nil _ hne, List.length_append]
        exact ⟨rfl, by omega⟩
    have hdead : ∀ D', D' = D ∨ D' = D ++ [line] → ¬ Survives D' ∧ D'.head? = D.head? := by
      intro D' hD'
      rcases hD' with rfl | rfl
      · exact ⟨hlive, rfl⟩
      · refine ⟨fun hno => hlive ⟨.inr ?_, ?_⟩, List.head?_append_of_ne_nil _ hneD⟩
        · rcases hno.1 with hone | hfirst
          · have hcount := congrArg List.length hone
            simp only [List.length_append, List.length_singleton] at hcount
            omega
          · rwa [List.head?_append_of_ne_nil _ hneD] at hfirst
        · have hle := hno.2
          rw [join_concat, List.length_append] at hle
          omega
    obtain ⟨hdead', hheadD⟩ := hdead (if D.getLast? = some line then D else D ++ [line])
      (by split <;> simp)
    obtain ⟨W', v', hW', hh', hsize'⟩ : ∃ W' v', (W' = W ∨ W' = W ++ [line]) ∧
        Holds W' v' (log_command (line ++ [chr '\n']) h) ∧
        (join (chr '\n') W').length ≤ MAXFILE * BSIZE := by
      by_cases heq : v.head? = some line
      · exact ⟨W, v, .inl rfl, hsame heq, hsize⟩
      · by_cases hfit : Fits W line
        · exact ⟨W ++ [line], _, .inr rfl, hfits heq hfit, hfit⟩
        · exact ⟨W, _, .inl rfl, hfull heq hfit, hsize⟩
    obtain ⟨hheadW, hlenW⟩ := hgrown W' hW'
    exact ⟨W', v', hh', hsize', fun hyes => absurd hyes hdead', by rw [hheadW, hheadD, hhead],
      fun _ => hlenW⟩

lemma Stored.step {op : HistoryOp} (hs : Stored L h) (hop : ∀ line ∈ entered [op], Typable line) :
    ∃ h', HistoryOp.step h op = some h' ∧ Stored (L ++ entered [op]) h' := by
  obtain ⟨W, v, hh, hrest⟩ := hs.holds
  cases op with
  | log line => exact ⟨_, rfl, hs.log (hop line (by simp [entered]))⟩
  | prev =>
    obtain ⟨rest, hloads, -⟩ := hh.rest
    obtain ⟨⟨h', com⟩, hget⟩ := Option.isSome_iff_exists.mp (get_prev_isSome hh.lines hloads 0)
    refine ⟨h', by simp [HistoryOp.step, hget], ?_⟩
    rw [show L ++ entered [.prev] = L from List.append_nil L]
    exact ⟨hs.typable, W, v, hh.get_prev hget, hrest⟩
  | next =>
    refine ⟨_, rfl, ?_⟩
    rw [show L ++ entered [.next] = L from List.append_nil L]
    exact ⟨hs.typable, W, v, hh.get_next, hrest⟩
  | restart =>
    obtain ⟨rest, hloads, -⟩ := hh.rest
    obtain ⟨hsize, hkept, hheads⟩ := hrest
    refine ⟨_, rfl, ?_⟩
    rw [show L ++ entered [.restart] = L from List.append_nil L, hloads.data]
    refine ⟨hs.typable, W, _, holds_init hh.lines, hsize, fun hlive => ?_, hheads⟩
    obtain ⟨hW, -⟩ := hkept hlive
    have hself : shown W = W := shown_eq_self (by rw [hW]; exact hlive.1)
    exact ⟨hW, by rw [hself]⟩

end

end Sh
end OhMyXv6
