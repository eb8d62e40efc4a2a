import OhMyXv6.Kernel.Opened
import OhMyXv6.Shell.Parsecmd

/-!
# Output to a file

`runcmd` puts the file of a redirection in the place of descriptor 0 or 1, with `close` and `open`, and goes
on with the command. For `>` and for `>>` the parser asks for the same, and `open` neither empties the file
nor goes to its end: what the command writes replaces the first bytes, and those behind it are left.
-/

namespace OhMyXv6
namespace Sh

open Console Kernel Prog

/-- The case `REDIR` of `runcmd`, up to the call of `runcmd` for the command inside: whether it gets there. -/
def redirect (p : ℕ) (file : Str) (mode fd : ℕ) : M Bool := do
  let _ ← syscall p (.close fd)
  let r ← syscall p (.open (some file) mode)
  return decide (0 ≤ r.1)

/-- From `s` to `t`, no one has touched open file `f`, its inode `i` or the path to it. -/
structure Aside (s t : State) (p : ℕ) (path : Str) (f i : ℕ) : Prop where
  output : Output t f i
  file : t.ftable f = s.ftable f
  resolve : t.nodes.resolve (t.start p path) path = s.nodes.resolve (s.start p path) path
  content : (t.nodes i).content = (s.nodes i).content

/-- From `s` to `t`, the bytes `O` are written to open file `f` by the processes that have it as their
descriptor 1. Between the writes other things may happen. -/
inductive Outputs (p : ℕ) (path : Str) (f i : ℕ) (s : State) : List UInt8 → State → Prop where
  | none : Outputs p path f i s [] s
  | write {O src : List UInt8} {t u : State} {q : ℕ} {ext r : Ret} (h : Outputs p path f i s O t)
    (hq : (t.proc q).ofile 1 = some f)
    (hrun : Prog.exec (syscall q (.write 1 (some src) ext)) t = .done r u) (hr : r.1 = src.length) :
    Outputs p path f i s (O ++ src) u
  | aside {O : List UInt8} {t u : State} (h : Outputs p path f i s O t) (ha : Aside t u p path f i) :
    Outputs p path f i s O u

/-- The bytes `O` have been written over the first of the bytes `C`. -/
structure Covered (s : State) (p : ℕ) (path C O : Str) (f i : ℕ) : Prop where
  output : Output s f i
  off : (s.ftable f).off = O.length
  resolve : s.nodes.resolve (s.start p path) path = some i
  content : (s.nodes i).content = O ++ C.drop O.length

section
variable {s t u : State} {p q fd f i : ℕ} {path C O src : Str} {ext r : Ret}

/-! ## What a run leaves in the file -/

namespace Covered

lemma regular (h : Covered s p path C O f i) : (s.nodes i).type = T_FILE := by
  have hfile := h.output.file
  have hlt := hfile.holds.inum
  rw [h.output.inum] at hlt
  rw [State.type_nodes s hlt, h.output.synced]
  exact hfile.regular

/-- What the old content has behind the new stays. -/
lemma fileContent (h : Covered s p path C O f i) : s.fileContent p path = some (O ++ C.drop O.length) := by
  unfold State.fileContent
  rw [h.resolve]
  show (if (s.nodes i).type = T_FILE then _ else _) = _
  rw [if_pos h.regular, h.content]

/-- What others do elsewhere does not matter. -/
lemma aside (h : Covered s p path C O f i) (ha : Aside s t p path f i) : Covered t p path C O f i :=
  ⟨ha.output, by rw [ha.file, h.off], ha.resolve.trans h.resolve, ha.content.trans h.content⟩

/-- One write, which begins where the last one has ended. -/
lemma write (h : Covered s p path C O f i) (hq : (s.proc q).ofile 1 = some f)
    (hrun : Prog.exec (syscall q (.write 1 (some src) ext)) s = .done r t) (hr : r.1 = src.length) :
    Covered t p path C (O ++ src) f i := by
  have hwrite : wp (fun _ => True) (sys_write q 1 (some src) ext) _ s :=
    (h.output.sys_write_ends (by decide) hq).wp
  obtain ⟨hout, hput⟩ := wp_done hwrite hrun hr
  have hstart : t.start p path = s.start p path := by
    unfold State.start
    rw [hput.proc, hput.inums]
  have hdir : (s.nodes i).type ≠ T_DIR := by
    rw [h.regular]
    decide
  refine ⟨hout, ?_, ?_, ?_⟩
  · rw [hput.ftable, Function.update_self, h.off, List.length_append]
  · rw [hstart, hput.nodes, Nodes.resolve_write hdir, h.resolve]
  · have htake : (O ++ C.drop O.length).take O.length = O := List.take_left
    have hdrop : (O ++ C.drop O.length).drop (O.length + src.length) = C.drop (O ++ src).length := by
      rw [← List.drop_drop, List.drop_left, List.drop_drop, List.length_append]
    rw [hput.nodes, Nodes.content_write h.output.off, h.off, h.content, htake, hdrop, List.append_assoc]

end Covered

/-- By induction on the run. -/
lemma Outputs.covered (h : Outputs p path f i s O t) (hs : Covered s p path C [] f i) :
    Covered t p path C O f i := by
  induction h with
  | none => exact hs
  | write _ hq hrun hr ih => exact ih.write hq hrun hr
  | aside _ ha ih => exact ih.aside ha

/-! ## The redirection in the shell -/

/-- A redirection behind a command is the outer one. -/
lemma Derives.redirected {l : List Token} {cmd : Cmd Str} {k : Arrow} {file : Str} (h : Derives .exec l cmd) :
    Derives .exec (l ++ [.arrow k, .word file]) (.redir cmd file k.mode k.fd) := by
  have hwrap : ∀ (cmd : Cmd Str) (rs : List Redirection),
      Redirection.wrap cmd (rs ++ [(k, file)]) = .redir (Redirection.wrap cmd rs) file k.mode k.fd := by
    intro cmd rs
    unfold Redirection.wrap
    rw [List.foldl_append]
    rfl
  generalize hN : Nonterminal.exec = N at h
  cases h with
  | line | list | exec | pipe => cases hN
  | block rs hline =>
    have hblock := Derives.block (rs ++ [(k, file)]) hline
    rw [hwrap, List.flatMap_append] at hblock
    have htokens : [(k, file)].flatMap Redirection.tokens = [.arrow k, .word file] := rfl
    rw [htokens] at hblock
    rw [List.cons_append, List.append_assoc, List.cons_append]
    exact hblock
  | args rs args hlen =>
    rcases List.eq_nil_or_concat args with rfl | ⟨front, ⟨w, last⟩, rfl⟩
    · have hargs := Derives.args (rs ++ [(k, file)]) [] hlen
      simpa [hwrap, Redirection.tokens] using hargs
    · -- it stands behind the last word
      have hargs := Derives.args rs (front ++ [(w, last ++ [(k, file)])]) (by simpa using hlen)
      have hsnd : rs ++ (front ++ [(w, last ++ [(k, file)])]).flatMap Prod.snd =
          rs ++ (front ++ [(w, last)]).flatMap Prod.snd ++ [(k, file)] := by
        simp [List.append_assoc]
      rw [hsnd, hwrap] at hargs
      simpa [Redirection.tokens, Arg.tokens, List.append_assoc] using hargs

/-- A word of the line consists of its bytes. -/
lemma subset_of_word_mem {line w : Str} (h : .word w ∈ tokens line) : w ⊆ line := by
  induction line using tokens.induct with
  | case1 =>
    rw [tokens_nil] at h
    cases h
  | case2 c l hb ih =>
    rw [tokens_blank hb] at h
    exact List.subset_cons_of_subset c (ih h)
  | case3 c l hb hs ih =>
    rw [tokens_word (Bool.eq_false_iff.mpr hb) hs] at h
    rcases List.mem_cons.mp h with hw | hw
    · rw [Token.word.inj hw]
      exact List.cons_subset_cons c (List.takeWhile_sublist isWord).subset
    · exact fun x hx => List.mem_cons_of_mem c ((List.dropWhile_sublist isWord).subset (ih hw hx))
  | case4 c l hb k hs hgt ih =>
    rw [tokens, if_neg hb, hs] at h
    dsimp only at h
    rw [if_pos hgt] at h
    rcases List.mem_cons.mp h with hw | hw
    · cases hw
    · exact fun x hx => List.mem_cons_of_mem c (List.mem_of_mem_tail (ih hw hx))
  | case5 c l hb k hs hgt ih =>
    rw [tokens_symbol hs hgt] at h
    rcases List.mem_cons.mp h with hw | hw
    · exact absurd hw.symm (symbol_ne_word hs w)
    · exact List.subset_cons_of_subset c (ih hw)

/-- The two system calls of a redirection of descriptor 1. -/
lemma redirect_ends {file : Str} {mode : ℕ} {D : ℕ → Prop} {E : Panic → Prop} (h : Alone s p)
    (h0 : (s.proc p).ofile 0 ≠ none) (h1 : ∀ f, (s.proc p).ofile 1 = some f → 1 < (s.ftable f).ref)
    (hfile : 0 ∉ file) (hC : s.Contains p file C) (hcreate : mode &&& O_CREATE ≠ 0)
    (hw : mode &&& O_WRONLY ≠ 0) (hE : Creatable s p file D E) :
    Ends E (redirect p file mode 1) (fun ok t =>
      ok = false ∧ (s.Unwritable p file ∨ ∀ f < NFILE, (s.ftable f).ref ≠ 0) ∨
      ok = true ∧ ∃ f i, (t.proc p).ofile 1 = some f ∧ Covered t p file C [] f i) s := by
  obtain ⟨r, k, hclose, hk⟩ := h.sys_close_done (by decide) h1
  have hk0 : (k.proc p).ofile 0 ≠ none := by
    rw [hk.ofile, Function.update_of_ne (by decide)]
    exact h0
  have hk1 : (k.proc p).ofile 1 = none := by
    rw [hk.ofile, Function.update_self]
  have hpath : Kernel.cstr (some file) = some file := by
    refine congrArg some (List.takeWhile_eq_self_iff.mpr fun c hc => ?_)
    rw [decide_eq_true_iff]
    rintro rfl
    exact hfile hc
  have hopen := hk.alone.sys_open_ends hfile (hk.contains hC) hk0 hk1 hcreate hw (hk.creatable hE)
  unfold redirect
  refine Ends.after hclose ?_
  show Ends E (sys_open p (Kernel.cstr (some file)) mode >>= _) _ k
  rw [hpath]
  refine Ends.seq hopen fun r t hr => ?_
  rw [ends_pure]
  rcases hr with ⟨rfl, hno⟩ | ⟨rfl, f, i, hf⟩
  · refine .inl ⟨rfl, hno.imp hk.unwritable.mp fun hfull f hlt hf0 => ?_⟩
    exact hfull f hlt (hk.free f hf0)
  · refine .inr ⟨rfl, f, i, hf.ofile, hf.output, hf.off, hf.resolve, ?_⟩
    rw [hf.content]
    rfl

/-- `>` is met where nothing is left of the old content. -/
lemma covered_gt : O ++ C.drop O.length = O ↔ C.length ≤ O.length := by
  rw [List.append_right_eq_self, List.drop_eq_nil_iff]

/-- `>>` is met where one of both is empty. -/
lemma covered_gtgt : O ++ C.drop O.length = C ++ O ↔ C = [] ∨ O = [] := by
  constructor
  · intro heq
    have hlen := congrArg List.length heq
    rw [List.length_append, List.length_append, List.length_drop] at hlen
    rw [← List.length_eq_zero_iff, ← List.length_eq_zero_iff]
    omega
  · rintro (rfl | rfl)
    · rw [List.drop_nil, List.append_nil, List.nil_append]
    · rw [List.length_nil, List.drop_zero, List.nil_append, List.append_nil]

/-- The file has what was meant to be written only when the first bytes are all there is. -/
theorem redirect_iff {line file : Str} {l : List Token} {cmd : Cmd Str} {k : Arrow} (h : Alone s p)
    (h0 : (s.proc p).ofile 0 ≠ none) (h1 : ∀ f, (s.proc p).ofile 1 = some f → 1 < (s.ftable f).ref)
    (hline : (0 : UInt8) ∉ line) (hk : k ≠ .lt) (htokens : tokens line = l ++ [.arrow k, .word file])
    (hcmd : Derives .exec l cmd) (hC : s.Contains p file C) :
    Fallible.Ends (fun _ => False) (parsecmd (4 * line.length + 4) line) (fun r _ =>
      r.1.map (fun w => cstring r.2 w.1) = .redir cmd file k.mode k.fd) 0 ∧
    Prog.Ends (fun _ => True) (redirect p file k.mode k.fd) (fun ok t => ok = true → ∃ f i,
      (t.proc p).ofile 1 = some f ∧ t.nodes.resolve (t.start p file) file = some i ∧
      ∀ O u, Outputs p file f i t O u →
        (k = .gt → (u.fileContent p file = some O ↔ C.length ≤ O.length)) ∧
        (k = .gtgt → (u.fileContent p file = some (C ++ O) ↔ C = [] ∨ O = []))) s := by
  have hfile : (0 : UInt8) ∉ file := by
    have hmem : Token.word file ∈ tokens line := by
      rw [htokens]
      simp
    exact fun hzero => hline (subset_of_word_mem hmem hzero)
  refine ⟨parsecmd_complete hline (Nat.le_refl _) ?_, ?_⟩
  · rw [htokens]
    have hderives := Derives.line 0 (.exec (@Derives.redirected l cmd k file hcmd))
    rwa [List.replicate_zero, List.append_nil] at hderives
  have hflags : k.mode = (O_WRONLY ||| O_CREATE) ∧ k.fd = 1 := by
    cases k with
    | lt => exact absurd rfl hk
    | gt | gtgt => exact ⟨rfl, rfl⟩
  rw [hflags.1, hflags.2]
  refine (redirect_ends h h0 h1 hfile hC (by decide) (by decide) (.any s p file)).mono (fun _ he => he) ?_
  rintro ok t (⟨rfl, -⟩ | ⟨rfl, f, i, hofile, hcov⟩) hok
  · exact nomatch hok
  refine ⟨f, i, hofile, hcov.resolve, fun O u hrun => ?_⟩
  rw [(hrun.covered hcov).fileContent, Option.some_inj, Option.some_inj]
  exact ⟨fun _ => covered_gt, fun _ => covered_gtgt⟩

/-! ### A file that is longer than the output -/

/-- The file `f` with the bytes `hi`. -/
def hiInode : Dinode :=
  { Dinode.zero with type := T_FILE, nlink := 1, size := 2, addrs := fun k => if k = 0 then 60 else 0 }

/-- The blocks of the example, but for the inodes. -/
def hiBase : Disk := fun b =>
  if b = 1 then oneFileSb.byte
  else if b = 58 then (List.range 61).foldl setBit zeroBlock
  else if b = 59 then rootBlock
  else if b = 60 then Bytes.ofList [104, 105]
  else zeroBlock

/-- A process that has its first three descriptors open, all with the same file. -/
def hiFile : State :=
  { oneFile with
    disk := twoDisk oneFileSb hiBase rootInode hiInode
    icache := twoCache rootInode hiInode
    ftable := fun f => if f = 0 then ⟨.FD_INODE, 3, true, true, 0, 0, 0⟩
      else ⟨.FD_NONE, 0, false, false, 0, 0, 0⟩
    proc := fun p => if p = 1 then ⟨true, fun fd => if fd < 3 then some 0 else none, 1⟩
      else ⟨false, fun _ => none, 0⟩ }

/-- The file of the example has its inode and block. -/
lemma rooted_hiFile : Rooted hiBase hiInode 60 :=
  have hlen : [104, 105].length ≤ BSIZE := by decide
  rooted_blockFile hlen

lemma alone_hiFile : Alone hiFile 1 := by
  have hsound : Kernel.Sound hiFile := rooted_hiFile.sound rfl rfl
  refine ⟨⟨rooted_hiFile.two.settled rfl rfl rfl, hsound, ⟨by decide, by decide⟩, fun f _ h0 => ?_,
    List.nodup_nil⟩, rfl, rfl, rfl⟩
  by_cases hf : f = 0
  · rw [hf] at h0
    exact absurd h0 (by decide)
  · show (if f = 0 then (⟨.FD_INODE, 3, true, true, 0, 0, 0⟩ : Kernel.File)
      else ⟨.FD_NONE, 0, false, false, 0, 0, 0⟩).type = _
    rw [if_neg hf]

lemma nodes_hiFile : hiFile.nodes = twoNodes oneFileSb hiBase rootInode hiInode :=
  rooted_hiFile.two.nodes rfl rfl

/-- The third entry of the root directory is the file. -/
lemma find_hiFile : (hiFile.nodes 1).find [102] = some 2 := nodes_hiFile ▸ rooted_hiFile.find_file

lemma resolveParent_hiFile :
    hiFile.nodes.resolveParent (hiFile.start 1 [102]) [102] = some (1, [102]) := by
  rw [nodes_hiFile]
  rfl

lemma resolve_hiFile : hiFile.nodes.resolve (hiFile.start 1 [102]) [102] = some 2 :=
  nodes_hiFile ▸ rooted_hiFile.resolve_file

lemma contains_hiFile : hiFile.Contains 1 [102] [104, 105] := by
  refine .inl ?_
  unfold State.fileContent
  rw [resolve_hiFile]
  show (if (hiFile.nodes 2).type = T_FILE then some (hiFile.nodes 2).content else none) = _
  have hlen : [104, 105].length ≤ BSIZE := by decide
  have hlt : 0 < [104, 105].length := by decide
  have hlt1 : 1 < [104, 105].length := by decide
  have hzero : (hiFile.nodes 2).data 0 = 104 := nodes_hiFile ▸ data_blockFile hlen hlt
  have hone : (hiFile.nodes 2).data 1 = 105 := nodes_hiFile ▸ data_blockFile hlen hlt1
  have hsize : (hiFile.nodes 2).size = 2 := by
    rw [nodes_hiFile]
    rfl
  have htype : (hiFile.nodes 2).type = T_FILE := nodes_hiFile ▸ rooted_hiFile.type_file
  rw [if_pos htype, Node.content, hsize]
  show some [(hiFile.nodes 2).data 0, (hiFile.nodes 2).data 1] = _
  rw [hzero, hone]

/-- It is there, so nothing is created. -/
lemma creatable_hiFile : Creatable hiFile 1 [102] (fun i => i = 1 ∨ i = 2) fun _ => False := by
  have htree : Tree hiFile.nodes fun i => i = 1 ∨ i = 2 := nodes_hiFile ▸ rooted_hiFile.tree
  refine ⟨⟨htree.allocated, htree.closed, Nat.not_le.mpr (room_twoCache rfl)⟩, .inl rfl, ?_, ?_⟩
  · intro i hi
    rw [resolve_hiFile] at hi
    obtain rfl := Option.some.inj hi
    exact htree.allocated 2 (.inr rfl)
  · -- the name is there
    intro d name hparent hfind
    rw [resolveParent_hiFile] at hparent
    obtain ⟨rfl, rfl⟩ := Prod.mk.inj (Option.some.inj hparent)
    rw [find_hiFile] at hfind
    exact nomatch hfind

lemma descriptors_hiFile : (hiFile.proc 1).ofile 0 ≠ none ∧
    ∀ f, (hiFile.proc 1).ofile 1 = some f → 1 < (hiFile.ftable f).ref := by
  refine ⟨nofun, fun f hf => ?_⟩
  obtain rfl := Option.some.inj hf
  decide

/-- The line `w>f`. -/
lemma tokens_hiFile : tokens [119, 62, 102] = [.word [119]] ++ [.arrow .gt, .word [102]] := by
  rw [tokens_word (by decide) (by decide)]
  show _ :: tokens (chr '>' :: [102]) = _
  rw [tokens_symbol rfl (by decide), tokens_word (by decide) (by decide)]
  show _ :: _ :: _ :: tokens [] = _
  rw [tokens_nil]
  decide

lemma derives_hiFile : Derives .exec [.word [119]] (.exec [[119]]) :=
  Derives.args [] [([119], [])] (by decide)

/-- A line that is redirected to `f`. -/
theorem redirect_iff_hiFile :
    Fallible.Ends (fun _ => False) (parsecmd (4 * [119, 62, 102].length + 4) [119, 62, 102]) (fun r _ =>
      r.1.map (fun w => cstring r.2 w.1) = .redir (.exec [[119]]) [102] Arrow.gt.mode Arrow.gt.fd) 0 ∧
    Prog.Ends (fun _ => True) (redirect 1 [102] Arrow.gt.mode Arrow.gt.fd) (fun ok t => ok = true → ∃ f i,
      (t.proc 1).ofile 1 = some f ∧ t.nodes.resolve (t.start 1 [102]) [102] = some i ∧
      ∀ O u, Outputs 1 [102] f i t O u →
        (Arrow.gt = .gt → (u.fileContent 1 [102] = some O ↔ ([104, 105] : Str).length ≤ O.length)) ∧
        (Arrow.gt = .gtgt → (u.fileContent 1 [102] = some ([104, 105] ++ O) ↔
          ([104, 105] : Str) = [] ∨ O = []))) hiFile :=
  redirect_iff alone_hiFile descriptors_hiFile.1 descriptors_hiFile.2 (by decide) (by decide) tokens_hiFile
    derives_hiFile contains_hiFile

/-- Descriptor 1 is put on the file, with the offset at its start. -/
theorem redirected_hiFile {k : Arrow} (hk : k ≠ .lt) : ∃ t f i,
    Prog.exec (redirect 1 [102] k.mode k.fd) hiFile = .done true t ∧ (t.proc 1).ofile 1 = some f ∧
      Covered t 1 [102] [104, 105] [] f i := by
  have hflags : k.mode = (O_WRONLY ||| O_CREATE) ∧ k.fd = 1 := by
    cases k with
    | lt => exact absurd rfl hk
    | gt | gtgt => exact ⟨rfl, rfl⟩
  rw [hflags.1, hflags.2]
  have hcreate : (O_WRONLY ||| O_CREATE) &&& O_CREATE ≠ 0 := by decide
  have hwrite : (O_WRONLY ||| O_CREATE) &&& O_WRONLY ≠ 0 := by decide
  have hends := redirect_ends alone_hiFile descriptors_hiFile.1 descriptors_hiFile.2 (by decide)
    contains_hiFile hcreate hwrite creatable_hiFile
  obtain ⟨ok, t, hrun, hok⟩ := hends.returns fun _ => id
  rcases hok with ⟨-, (hparent | ⟨i, hi, htype⟩) | hfull⟩ | ⟨rfl, f, i, hofile, hcov⟩
  · rw [resolveParent_hiFile] at hparent
    exact nomatch hparent
  · rw [resolve_hiFile] at hi
    obtain rfl := Option.some.inj hi
    exact absurd (nodes_hiFile ▸ rooted_hiFile.type_file) htype
  · exact absurd rfl (hfull 1 (by decide))
  · exact ⟨t, f, i, hrun, hofile, hcov⟩

/-- `w>f`, where `w` writes nothing, leaves the two bytes in the file. -/
theorem not_emptied_hiFile : tokens [119, 62, 102] = [.word [119]] ++ [.arrow .gt, .word [102]] ∧
    Derives .exec [.word [119]] (.exec [[119]]) ∧ Alone hiFile 1 ∧ hiFile.Contains 1 [102] [104, 105] ∧
    ∃ t f i, Prog.exec (redirect 1 [102] Arrow.gt.mode Arrow.gt.fd) hiFile = .done true t ∧
      (t.proc 1).ofile 1 = some f ∧ t.nodes.resolve (t.start 1 [102]) [102] = some i ∧
      ∃ O u, Outputs 1 [102] f i t O u ∧ O = [] ∧ u.fileContent 1 [102] ≠ some O := by
  refine ⟨tokens_hiFile, derives_hiFile, alone_hiFile, contains_hiFile, ?_⟩
  obtain ⟨t, f, i, hrun, hofile, hcov⟩ := redirected_hiFile (k := .gt) (by decide)
  refine ⟨t, f, i, hrun, hofile, hcov.resolve, [], t, .none, rfl, ?_⟩
  rw [hcov.fileContent]
  decide

/-- The line `w>>f`. -/
lemma tokens_appended : tokens [119, 62, 62, 102] = [.word [119]] ++ [.arrow .gtgt, .word [102]] := by
  rw [tokens_word (by decide) (by decide)]
  show _ :: tokens (chr '>' :: chr '>' :: [102]) = _
  rw [tokens_gtgt, tokens_word (by decide) (by decide)]
  show _ :: _ :: _ :: tokens [] = _
  rw [tokens_nil]
  decide

/-- The process redirects its output to `f` with `>>`, and writes `a`. -/
def appendA : M (Bool × ℤ) := do
  let ok ← redirect 1 [102] Arrow.gtgt.mode Arrow.gtgt.fd
  let r ← syscall 1 (.write 1 (some [97]) failed)
  return (ok, r.1)

-- the run below is evaluated by the kernel alone
attribute [local irreducible] hiFile

lemma appendA_ends : Prog.Ends (fun _ => False) appendA (fun r _ => r = (true, 1)) hiFile := by
  unfold Prog.Ends
  decide +kernel

/-- `w>>f`, where `w` writes `a`, replaces the first of the two bytes. -/
theorem not_appended_hiFile :
    tokens [119, 62, 62, 102] = [.word [119]] ++ [.arrow .gtgt, .word [102]] ∧
    Derives .exec [.word [119]] (.exec [[119]]) ∧ Alone hiFile 1 ∧ hiFile.Contains 1 [102] [104, 105] ∧
    ∃ t f i, Prog.exec (redirect 1 [102] Arrow.gtgt.mode Arrow.gtgt.fd) hiFile = .done true t ∧
      (t.proc 1).ofile 1 = some f ∧ t.nodes.resolve (t.start 1 [102]) [102] = some i ∧
      ∃ O u, Outputs 1 [102] f i t O u ∧ O = [97] ∧ u.fileContent 1 [102] = some [97, 105] ∧
        u.fileContent 1 [102] ≠ some ([104, 105] ++ O) := by
  refine ⟨tokens_appended, derives_hiFile, alone_hiFile, contains_hiFile, ?_⟩
  obtain ⟨t, f, i, hrun, hofile, hcov⟩ := redirected_hiFile (k := .gtgt) (by decide)
  have hwrite := (Prog.ends_bind.mp appendA_ends).of_done hrun
  obtain ⟨r, u, hu, heq⟩ := (Prog.ends_bind.mp hwrite).returns fun _ => id
  have hr : r.1 = 1 := (Prod.mk.inj heq).2
  have hout : Outputs 1 [102] f i t ([] ++ [97]) u := .write .none hofile hu hr
  have hcontent := (hout.covered hcov).fileContent
  refine ⟨t, f, i, hrun, hofile, hcov.resolve, [97], u, hout, rfl, hcontent, ?_⟩
  rw [hcontent]
  decide

end

end Sh
end OhMyXv6
