import BrkKernel.Fs.Path
import Mathlib.Algebra.Group.Pi.Lemmas
import Mathlib.Tactic.Abel

/-!
# Path resolution stops, in its buffers

A turn of `path_walk` writes inside its buffers, leaves one reference on the path and either ends or
goes on with a shorter text or with one link more behind it (`turn_spec`). So the walk ends after a
number of turns that the length of the path bounds, has followed at most `MAXSYMLINKS` links, and
leaves one reference on what it returns or none (`pathWalk_returns`).
-/

set_option autoImplicit false

namespace BrkKernel.Lookup

open Lib Refs List

/-! ## References -/

section References

variable {δ μ : Type} [DecidableEq δ] [DecidableEq μ] (refs : Refs δ μ) (path : Path δ μ)

/-- One reference on the dentry and one on the mount of a path. -/
def own (path : Path δ μ) : Refs δ μ := Pi.single (.inl path.dentry) 1 + Pi.single (.inr path.mnt) 1

theorem Refs.add_eq (x : δ ⊕ μ) (n : Int) : refs.add x n = refs + Pi.single x n := by
  funext y
  by_cases hy : y = x
  · subst hy
    simp [add]
  · simp [add, hy]

theorem Refs.getPath_eq : refs.getPath path = refs + own path := by
  rw [getPath, add_eq, add_eq, add_assoc, own]

theorem Refs.putPath_eq : refs.putPath path = refs - own path := by
  have hneg : ∀ x : δ ⊕ μ, (Pi.single x (-1) : Refs δ μ) = -Pi.single x 1 := by
    intro x
    exact Pi.single_neg x 1
  rw [putPath, add_eq, add_eq, own, hneg, hneg]
  abel

theorem Refs.get_get_eq : (refs.get (.inl path.dentry)).get (.inr path.mnt) = refs + own path := by
  rw [← getPath_eq]
  rfl

theorem Refs.get_get_eq' : (refs.get (.inr path.mnt)).get (.inl path.dentry) = refs + own path := by
  rw [get, get, add_eq, add_eq, own]
  abel

end References

/-! ## Mounts and `..` -/

section Mounts

variable {δ μ : Type} [DecidableEq δ] [DecidableEq μ] (v : Tree δ μ) (path : Path δ μ)
  (refs : Refs δ μ) (fuel : Nat)

/-- The path that `follow_mount` ends at. -/
def crossLoop : Nat → Path δ μ → Path δ μ
  | 0, path => path
  | fuel + 1, path =>
    match v.mountStateLookup path.mnt path.dentry with
    | none => path
    | some c => if !v.isMounted (v.root c) then ⟨c, v.root c⟩ else crossLoop fuel ⟨c, v.root c⟩

/-- What is mounted on a path, or the path. -/
def cross (path : Path δ μ) : Path δ μ :=
  if !v.isMounted path.dentry then path else crossLoop v v.mounts path

/-- Each mount that `follow_mount` comes to is a later one. -/
theorem followLoop_eq (path : Path δ μ) (refs : Refs δ μ) (h : v.mounts ≤ fuel + v.rank path.mnt) :
    followLoop v fuel path refs =
      .ok (crossLoop v fuel path, refs - own path + own (crossLoop v fuel path)) := by
  induction fuel generalizing path refs with
  | zero =>
    have hlt := v.rank_lt path.mnt
    omega
  | succ fuel ih =>
    unfold followLoop crossLoop
    cases hc : v.mountStateLookup path.mnt path.dentry with
    | none =>
      simp only [sub_add_cancel]
    | some c =>
      have hrank := v.rank_lookup _ _ _ hc
      have hrefs : ((refs.get (.inr c)).putPath path).get (.inl (v.root c)) =
          refs - own path + own ⟨c, v.root c⟩ := by
        rw [Refs.get, Refs.get, Refs.putPath_eq, Refs.add_eq, Refs.add_eq, own, own]
        abel
      simp only [hrefs]
      split
      · rfl
      · rw [ih ⟨c, v.root c⟩ _ (by show v.mounts ≤ fuel + v.rank c; omega)]
        congr 2
        abel

theorem followMount_eq :
    followMount v path refs = .ok (cross v path, refs - own path + own (cross v path)) := by
  unfold followMount cross
  split
  · rw [sub_add_cancel]
  · exact followLoop_eq v v.mounts path refs (Nat.le_add_right _ _)

/-- The path that `fs_path_dot_dot` ends at. -/
def dotDotPath : Nat → Path δ μ → Path δ μ
  | 0, cur => cur
  | fuel + 1, cur =>
    if cur.dentry ≠ v.root cur.mnt then ⟨cur.mnt, v.parent cur.dentry⟩
    else if cur.mnt ≠ v.above cur.mnt then
      dotDotPath fuel ⟨v.above cur.mnt, v.mountPoint cur.mnt⟩
    else cur

/-- Each mount that `fs_path_dot_dot` comes to is an earlier one. -/
theorem dotDotLoop_eq (cur : Path δ μ) (refs : Refs δ μ) (h : v.rank cur.mnt < fuel) :
    dotDotLoop v fuel cur refs =
      .ok (dotDotPath v fuel cur, refs - own cur + own (dotDotPath v fuel cur)) := by
  induction fuel generalizing cur refs with
  | zero => exact absurd h (Nat.not_lt_zero _)
  | succ fuel ih =>
    unfold dotDotLoop dotDotPath
    split
    · have hget := get_get_eq refs (⟨cur.mnt, v.parent cur.dentry⟩ : Path δ μ)
      simp only at hget ⊢
      rw [hget, putPath_eq]
      congr 2
      abel
    next hroot =>
    rw [ne_eq, not_not] at hroot
    split
    · next hup =>
      have hrank := v.rank_above cur.mnt fun he => hup he.symm
      have hget := get_get_eq' refs (⟨v.above cur.mnt, v.mountPoint cur.mnt⟩ : Path δ μ)
      rw [ih _ _ (by show v.rank (v.above cur.mnt) < fuel; omega), hget, putPath_eq]
      congr 2
      abel
    · next htop =>
      rw [ne_eq, not_not] at htop
      have hparent := v.parent_root cur.mnt htop.symm
      rw [if_pos (by rw [hroot, hparent]), sub_add_cancel]

/-- `..` of a path. -/
def dotDot (path : Path δ μ) : Path δ μ := dotDotPath v (v.mounts + 1) path

theorem fsPathDotDot_eq :
    fsPathDotDot v path refs = .ok (dotDot v path, refs + own (dotDot v path)) := by
  have hrank := v.rank_lt path.mnt
  unfold fsPathDotDot
  rw [dotDotLoop_eq v _ path _ (by omega), getPath_eq, add_sub_cancel_right]
  rfl

/-- The component of a name in a directory. -/
def entry (dir : Path δ μ) (name : Name) : Except Errno (Path δ μ) :=
  if name = [46] then .ok dir
  else if name = [46, 46] then .ok (dotDot v dir)
  else (v.lookup dir.dentry name).map fun d => ⟨dir.mnt, d⟩

/-- The references that a result carries. -/
def owned {ε : Type} (r : Except ε (Path δ μ)) : Refs δ μ := r.toOption.elim 0 own

theorem component_eq (dir : Path δ μ) (name : Name) (refs : Refs δ μ) :
    component v dir name refs = .ok (entry v dir name, refs + owned (entry v dir name)) := by
  unfold component entry
  split
  · rw [fsPathDot, getPath_eq]
    rfl
  split
  · rw [fsPathDotDot_eq]
    rfl
  unfold dirLookupEntry
  cases v.lookup dir.dentry name with
  | error e => simp [owned, Except.map, Except.toOption]
  | ok d =>
    have hget := get_get_eq refs (⟨dir.mnt, d⟩ : Path δ μ)
    simp only [hget]
    rfl

end Mounts

/-! ## The buffers -/

section Buffers

theorem Buffer.write_eq (b : Buffer) (off : Nat) (bs : List UInt8) (h : off + bs.length ≤ pathMax) :
    ∃ b', b.write off bs = .ok b' ∧
      b'.bytes = b.bytes.take off ++ bs ++ b.bytes.drop (off + bs.length) := by
  have hw := writeAt_of_le (h.trans_eq b.size.symm)
  unfold Buffer.write
  split
  · next hnone =>
    rw [hw] at hnone
    cases hnone
  · next bytes hsome =>
    rw [hw] at hsome
    exact ⟨_, rfl, (Option.some.inj hsome).symm⟩

theorem length_joinText (t rest : List UInt8) :
    (joinText t rest).length = t.length + (if rest = [] then 0 else 1) + rest.length := by
  unfold joinText
  split
  · next h => simp [h]
  · simp only [length_append, length_cons]
    omega

theorem zero_notMem_joinText {t rest : List UInt8} (ht : 0 ∉ t) (hr : 0 ∉ rest) :
    0 ∉ joinText t rest := by
  unfold joinText
  split
  · exact ht
  · simp only [mem_append, mem_cons, not_or]
    exact ⟨ht, by decide, hr⟩

variable {δ μ : Type}

/-- The link and the rest of the path are put together inside the buffers. -/
theorem joinBuffers_eq (w : Walk δ μ) (t rest : List UInt8) (target : Buffer)
    (hfit : (joinText t rest).length + 1 ≤ pathMax) :
    ∃ restbuf combined after, joinBuffers w t rest target =
        .ok { w with target, restbuf, combined } ∧
      combined.bytes = joinText t rest ++ 0 :: after := by
  have hlen := length_joinText t rest
  obtain ⟨restbuf, hrest, hrbytes⟩ := w.restbuf.write_eq 0 (rest ++ [0]) (by
    rw [length_append, length_singleton]
    omega)
  obtain ⟨c1, hc1, hb1⟩ := w.combined.write_eq 0 t (by omega)
  have hcopy : restbuf.bytes.take (rest.length + 1) = rest ++ [0] := by
    rw [hrbytes, take_zero, nil_append]
    exact take_left' (by simp)
  have hb1' : c1.bytes = t ++ w.combined.bytes.drop t.length := by simpa using hb1
  unfold joinBuffers
  rw [hrest, hc1]
  simp only [Except.bind, hcopy]
  by_cases hnil : rest = []
  · subst hnil
    obtain ⟨c3, hc3, hb3⟩ := c1.write_eq t.length [0] (by
      rw [length_singleton]
      omega)
    refine ⟨restbuf, c3, c1.bytes.drop (t.length + 1), ?_, ?_⟩
    · simp only [if_true, nil_append, hc3]
    · rw [hb3, hb1']
      simp [joinText]
  obtain ⟨c2, hc2, hb2⟩ := c1.write_eq t.length [slash] (by
    rw [length_singleton]
    omega)
  have hb2' : c2.bytes = t ++ slash :: c1.bytes.drop (t.length + 1) := by
    rw [hb2, hb1']
    simp
  obtain ⟨c3, hc3, hb3⟩ := c2.write_eq (t.length + 1) (rest ++ [0]) (by
    rw [length_append, length_singleton]
    simp only [hnil, if_false] at hlen
    omega)
  refine ⟨restbuf, c3, c2.bytes.drop (t.length + 1 + (rest ++ [0]).length), ?_, ?_⟩
  · simp only [hnil, if_false, hc2, hc3]
  have htake : c2.bytes.take (t.length + 1) = t ++ [slash] := by
    rw [hb2', show t ++ slash :: c1.bytes.drop (t.length + 1) =
      (t ++ [slash]) ++ c1.bytes.drop (t.length + 1) by simp]
    exact take_left' (by simp)
  rw [hb3, htake]
  simp [joinText, hnil]

end Buffers

/-! ## One turn -/

section Turns

variable {δ μ : Type} [DecidableEq δ] [DecidableEq μ] {v : Vfs δ μ} {flags : Flags}
  {name s : List UInt8} {w w' : Walk δ μ}

/-- The references besides the one on the path of the walk. -/
def Walk.held (w : Walk δ μ) : Refs δ μ := w.refs - own w.path

/-- A turn that ends with an error has given back all that the walk held. -/
structure Fails (w w' : Walk δ μ) : Prop where
  refs : w'.refs = w.held
  followed : w'.followed = w.followed

theorem lookupError_eq (w : Walk δ μ) (e : Errno) :
    ∃ w', lookupError w e = .stop (.error e) w' ∧ Fails w w' :=
  ⟨_, rfl, putPath_eq _ _, rfl⟩

/-- The string that the buffer `target` holds once a link of the length `len` has been read to it:
behind the bytes that have been written stands what was there. -/
def readText (bs stale : List UInt8) (len : Nat) : List UInt8 :=
  ((bs ++ stale).take len).takeWhile (· ≠ 0)

/-- A link `x` of the directory `d` has been followed. -/
structure Followed (v : Vfs δ μ) (name : List UInt8) (w w' : Walk δ μ) (d x : Path δ μ)
    (rest t : List UInt8) : Prop where
  under : w.depth < maxSymlinks
  read : ∃ bs len stale, v.readlink x.dentry (pathMax - 1) = .ok (bs, len) ∧
    t = readText bs stale len
  nonempty : t ≠ []
  fits : (joinText t rest).length < pathMax
  path : w'.path = if t.head? = some slash then v.fsRoot else d
  text : w'.text name = .ok (if t.head? = some slash then (joinText t rest).tail
    else joinText t rest)
  depth : w'.depth = w.depth + 1
  followed : w'.followed = (x.dentry, joinText t rest) :: w.followed

/-- `target` after `readlink` and the zero byte. -/
theorem target_eq (target : Buffer) {bs : List UInt8} {len : Nat}
    (hbs : bs.length ≤ pathMax - 1) (hlen : len < pathMax - 1) :
    ∃ target1 target2 stale, target.write 0 bs = .ok target1 ∧ target1.write len [0] = .ok target2 ∧
      cstr target2.bytes 0 = some (readText bs stale len) := by
  obtain ⟨target1, h1, hb1⟩ := target.write_eq 0 bs (by omega)
  obtain ⟨target2, h2, hb2⟩ := target1.write_eq len [0] (by
    rw [length_singleton]
    omega)
  refine ⟨target1, target2, target.bytes.drop bs.length, h1, h2, ?_⟩
  have hb1' : target1.bytes = bs ++ target.bytes.drop bs.length := by simpa using hb1
  rw [hb2, hb1', append_assoc, singleton_append, cstr_cut]
  rfl

omit [DecidableEq δ] [DecidableEq μ] in
theorem text_eq_ok : w.text name = .ok s ↔ cstr (w.source name).1 (w.source name).2 = some s := by
  unfold Walk.text
  cases cstr (w.source name).1 (w.source name).2 with
  | none => simp
  | some s' => simp

omit [DecidableEq δ] [DecidableEq μ] in
/-- The text that the cursor is at once the buffers are filled. -/
theorem text_combined {combined : Buffer} {s after : List UInt8} {off : Nat}
    (hc : w.combined = combined) (hb : combined.bytes = s ++ 0 :: after) (hs : 0 ∉ s)
    (hp : w.p = .combined off) (hoff : off ≤ s.length) : w.text name = .ok (s.drop off) := by
  have hzero : cstr combined.bytes 0 = some s := by
    rw [hb]
    exact cstr_append_zero [] s after hs
  have hread := cstr_add hzero hoff
  rw [zero_add] at hread
  rw [text_eq_ok, Walk.source, hp, hc]
  exact hread

omit [DecidableEq δ] [DecidableEq μ] in
/-- The text does not depend on where the walk is. -/
theorem text_congr (hp : w'.p = w.p) (hc : w'.combined = w.combined) :
    w'.text name = w.text name := by
  unfold Walk.text Walk.source
  rw [hp, hc]

omit [DecidableEq δ] [DecidableEq μ] in
theorem zero_notMem_of_text (hs : w.text name = .ok s) : 0 ∉ s :=
  zero_notMem_of_cstr (text_eq_ok.mp hs)

omit [DecidableEq δ] [DecidableEq μ] in
/-- The text behind a component. -/
theorem text_advance {s rest : List UInt8} {c : Name} (hs : w.text name = .ok s)
    (hrest : rest <:+ s) :
    ({ w with p := w.p.advance (s.length - rest.length), componentName := c } :
      Walk δ μ).text name = .ok rest := by
  rw [text_eq_ok] at hs ⊢
  have hdrop : s.drop (s.length - rest.length) = rest := (suffix_iff_eq_drop.mp hrest).symm
  have hread := cstr_add hs (Nat.sub_le s.length rest.length)
  rw [hdrop] at hread
  unfold Walk.source at hread ⊢
  generalize w.p = p at hread ⊢
  cases p with
  | name off => exact hread
  | combined off => exact hread

/-- The walk goes on at the root or in the directory of the link. -/
theorem restart_spec {x : Path δ μ} {t rest after : List UInt8} {restbuf combined target : Buffer}
    (hdepth : w.depth < maxSymlinks)
    (hread : ∃ bs len stale, v.readlink x.dentry (pathMax - 1) = .ok (bs, len) ∧
      t = readText bs stale len) (ht : t ≠ []) (hfit : (joinText t rest).length < pathMax)
    (hzero : 0 ∉ joinText t rest) (hb : combined.bytes = joinText t rest ++ 0 :: after) :
    ∃ w' t', restart v { w with
        depth := w.depth + 1, target, restbuf, combined
        refs := w.refs.putPath x
        followed := (x.dentry, joinText t rest) :: w.followed } t = .go w' ∧
      Followed v name w w' w.path x rest t' ∧ w'.held = w.held - own x := by
  obtain ⟨b, s, hjoin, hhead⟩ : ∃ b s, joinText t rest = b :: s ∧ t.head? = some b := by
    obtain ⟨b, t, rfl⟩ := exists_cons_of_ne_nil ht
    unfold joinText
    split
    · exact ⟨b, _, rfl, rfl⟩
    · exact ⟨b, _, rfl, rfl⟩
  have hbytes : combined.bytes.head? = t.head? := by
    rw [hb, hjoin, hhead]
    rfl
  unfold restart
  by_cases habs : t.head? = some slash
  · have hinit : pathInit v.toTree .atFdcwd combined.bytes
        ((w.refs.putPath x).putPath w.path) =
        (.ok (v.fsRoot, 1), ((w.refs.putPath x).putPath w.path).getPath v.fsRoot) := by
      unfold pathInit
      rw [hbytes, if_pos habs]
    rw [if_pos habs, hinit]
    refine ⟨_, t, rfl, ⟨hdepth, hread, ht, hfit, ?_, ?_, rfl, rfl⟩, ?_⟩
    · rw [if_pos habs]
    · have hone : 1 ≤ (joinText t rest).length := by
        rw [hjoin]
        exact Nat.succ_le_succ (Nat.zero_le _)
      rw [if_pos habs, ← drop_one]
      exact text_combined rfl hb hzero rfl hone
    · show ((w.refs.putPath x).putPath w.path).getPath v.fsRoot - own v.fsRoot = _
      rw [getPath_eq, putPath_eq, putPath_eq, add_sub_cancel_right, sub_right_comm]
      rfl
  · rw [if_neg habs]
    refine ⟨_, t, rfl, ⟨hdepth, hread, ht, hfit, ?_, ?_, rfl, rfl⟩, ?_⟩
    · rw [if_neg habs]
    · rw [if_neg habs]
      exact text_combined rfl hb hzero rfl (Nat.zero_le _)
    · show w.refs.putPath x - own w.path = _
      rw [putPath_eq, sub_right_comm]
      rfl

/-- When the component is dropped, its reference and that of the path are given back. -/
theorem dropComponent_eq {w1 : Walk δ μ} (x : Path δ μ) (e : Errno) (hrefs : w1.refs = w.refs)
    (hpath : w1.path = w.path) (hfollowed : w1.followed = w.followed) :
    ∃ e' w', (.ok (dropComponent w1 x e) : Except Halt (Turn δ μ)) = .ok (.stop (.error e') w') ∧
      w'.refs = w.held - own x ∧ w'.followed = w.followed := by
  refine ⟨e, _, rfl, ?_, hfollowed⟩
  rw [putPath_eq, putPath_eq, hrefs, hpath, sub_right_comm]
  rfl

/-- Following a link fails with the references given back, or goes on with the text of the link. -/
theorem followLink_spec (w : Walk δ μ) (x : Path δ μ) (inode : Inode) (rest : List UInt8)
    (hrest : 0 ∉ rest) :
    (∃ e w', followLink v w x inode rest = .ok (.stop (.error e) w') ∧
      w'.refs = w.held - own x ∧ w'.followed = w.followed) ∨
    ∃ w' t, followLink v w x inode rest = .ok (.go w') ∧
      Followed v name w w' w.path x rest t ∧ w'.held = w.held - own x := by
  unfold followLink
  simp only
  split
  · exact .inl (dropComponent_eq x .eloop rfl rfl rfl)
  rename_i hdepth
  split
  · exact .inl (dropComponent_eq x .einval rfl rfl rfl)
  split
  · exact .inl (dropComponent_eq x _ rfl rfl rfl)
  next bs len hread =>
    have hbs := v.readlink_le _ _ _ _ hread
    by_cases hlong : pathMax - 1 ≤ len
    · obtain ⟨target1, h1, -⟩ := w.target.write_eq 0 bs (by omega)
      simp only [h1, Except.bind, if_pos hlong]
      exact .inl (dropComponent_eq x .enametoolong rfl rfl rfl)
    obtain ⟨target1, target2, stale, h1, h2, hcstr⟩ :=
      target_eq w.target hbs (Nat.lt_of_not_le hlong)
    simp only [h1, Except.bind, if_neg hlong, h2, hcstr]
    split
    · exact .inl (dropComponent_eq x .enoent rfl rfl rfl)
    rename_i hne
    rw [← length_joinText]
    split
    · exact .inl (dropComponent_eq x .enametoolong rfl rfl rfl)
    rename_i hfit
    obtain ⟨restbuf, combined, after, hj, hb⟩ :=
      joinBuffers_eq { w with depth := w.depth + 1 } (readText bs stale len) rest target2
        (Nat.le_of_not_lt hfit)
    obtain ⟨w', t, h, hok⟩ := restart_spec (w := w) (Nat.lt_of_not_le hdepth)
      ⟨bs, len, stale, hread, rfl⟩ hne (Nat.lt_of_succ_le (Nat.le_of_not_lt hfit))
      (zero_notMem_joinText (zero_notMem_of_cstr hcstr) hrest) hb
    rw [hj]
    exact .inr ⟨w', t, congrArg Except.ok h, hok⟩

/-- The path is that of a directory that may be searched, and `d` is what is mounted there. -/
structure Enters (v : Tree δ μ) (path d : Path δ μ) : Prop where
  positive : v.negative path.dentry = false
  dir : ∃ i, v.inode path.dentry = some i ∧ i.kind = .dir ∧ i.denied = none
  across : d = cross v path

/-- The inode of a path is a symbolic link. -/
def IsLink (v : Tree δ μ) (x : Path δ μ) : Prop := ∃ i, v.inode x.dentry = some i ∧ i.kind = .lnk

/-- A component that is not followed has been found in the directory `d`. -/
structure Moved (v : Vfs δ μ) (flags : Flags) (name : List UInt8) (w w' : Walk δ μ) (x : Path δ μ)
    (rest : List UInt8) : Prop where
  stays : IsLink v.toTree x → rest = [] ∧ flags.follow = false
  path : w'.path = if flags.mountpoint ∧ rest = [] then x else cross v.toTree x
  text : w'.text name = .ok rest
  depth : w'.depth = w.depth
  followed : w'.followed = w.followed

/-- What a turn at the text `s` comes to. -/
inductive Turned (v : Vfs δ μ) (flags : Flags) (name : List UInt8) (w : Walk δ μ)
    (s : List UInt8) : Turn δ μ → Prop
  | failed {e : Errno} {w' : Walk δ μ} (h : Fails w w') :
      Turned v flags name w s (.stop (.error e) w')
  | ended {c : Name} (hs : components s = []) : Turned v flags name w s (.stop (.ok (w.path, c)) w)
  | parent {d : Path δ μ} {c : Name} {w' : Walk δ μ} (hp : flags.parent = true)
      (refs : w'.refs = w.held + own d) (followed : w'.followed = w.followed) :
      Turned v flags name w s (.stop (.ok (d, c)) w')
  | moved {d x : Path δ μ} {c rest : List UInt8} {w' : Walk δ μ} (hd : Enters v.toTree w.path d)
      (hs : skipComponent s = some (c, rest)) (hx : entry v.toTree d (qstrMake c) = .ok x)
      (h : Moved v flags name w w' x rest) (held : w'.held = w.held) :
      Turned v flags name w s (.go w')
  | linked {d x : Path δ μ} {c rest t : List UInt8} {w' : Walk δ μ}
      (hd : Enters v.toTree w.path d) (hs : skipComponent s = some (c, rest))
      (hx : entry v.toTree d (qstrMake c) = .ok x) (hl : IsLink v.toTree x)
      (h : Followed v name w w' d x rest t) (held : w'.held = w.held) :
      Turned v flags name w s (.go w')

theorem settle_spec (w : Walk δ μ) (x : Path δ μ) (rest : List UInt8)
    (hrest : w.text name = .ok rest) (hx : IsLink v.toTree x → rest = [] ∧ flags.follow = false) :
    ∃ w', settle v flags w x rest = .ok (.go w') ∧ Moved v flags name w w' x rest ∧
      w'.held = w.held - own x := by
  have hput : w.refs.putPath w.path - own x = w.held - own x := by
    rw [putPath_eq]
    rfl
  unfold settle
  by_cases hm : flags.mountpoint ∧ rest = []
  · rw [if_neg (by
      rw [hm.1, hm.2]
      decide)]
    refine ⟨_, rfl, ⟨hx, ?_, ?_, rfl, rfl⟩, hput⟩
    · rw [if_pos hm]
    · exact (text_congr rfl rfl).trans hrest
  rw [if_pos (by
    cases hf : flags.mountpoint with
    | false => exact .inl rfl
    | true => exact .inr fun h => hm ⟨hf, h⟩), followMount_eq]
  refine ⟨_, rfl, ⟨hx, ?_, ?_, rfl, rfl⟩, ?_⟩
  · rw [if_neg hm]
  · exact (text_congr rfl rfl).trans hrest
  · show w.refs.putPath w.path - own x + own (cross v.toTree x) - own (cross v.toTree x) = _
    rw [add_sub_cancel_right, hput]

/-- What becomes of a component that has been found: its reference is given back, or it is the path
of the walk. -/
theorem reach_spec (w : Walk δ μ) (x : Path δ μ) (rest : List UInt8)
    (hrest : w.text name = .ok rest) :
    (∃ e w', reach v flags w x rest = .ok (.stop (.error e) w') ∧
      w'.refs = w.held - own x ∧ w'.followed = w.followed) ∨
    (∃ w', reach v flags w x rest = .ok (.go w') ∧ Moved v flags name w w' x rest ∧
      w'.held = w.held - own x) ∨
    ∃ w' t, reach v flags w x rest = .ok (.go w') ∧ IsLink v.toTree x ∧
      Followed v name w w' w.path x rest t ∧ w'.held = w.held - own x := by
  unfold reach
  split
  · next hi =>
      refine .inr (.inl (settle_spec w x rest hrest ?_))
      rintro ⟨i, hsome, -⟩
      cases hi.symm.trans hsome
  next i hi =>
    split
    · next hk =>
        refine .inr (.inl (settle_spec w x rest hrest ?_))
        rintro ⟨j, hsome, hj⟩
        cases hi.symm.trans hsome
        exact absurd hj hk
    next hk =>
      split
      · exact .inl (dropComponent_eq x .eloop rfl rfl rfl)
      split
      · rcases followLink_spec w x i rest (zero_notMem_of_text hrest) with h | ⟨w', t, h, hok⟩
        · exact .inl h
        · exact .inr (.inr ⟨w', t, h, ⟨i, hi, not_not.1 hk⟩, hok⟩)
      · next hf =>
          rw [not_or, ne_eq, not_not] at hf
          exact .inr (.inl (settle_spec w x rest hrest fun _ => ⟨hf.1, by simpa using hf.2⟩))

/-- A component is taken from the text: nothing that the walk holds is lost. -/
theorem visit_spec (w : Walk δ μ) {s c rest : List UInt8} (p : Cursor)
    (hs : skipComponent s = some (c, rest))
    (hrest : ({ w with p, componentName := qstrMake c } : Walk δ μ).text name = .ok rest) :
    ∃ t, visit v flags { w with p, componentName := qstrMake c } rest = .ok t ∧
      Turned v flags name w s t := by
  have hfail : ∀ e, ∃ t, Except.ok (lookupError { w with p, componentName := qstrMake c } e) =
      (.ok t : Except Halt (Turn δ μ)) ∧ Turned v flags name w s t := by
    intro e
    obtain ⟨w', h, hok⟩ := lookupError_eq { w with p, componentName := qstrMake c } e
    exact ⟨_, congrArg Except.ok h, .failed ⟨hok.refs, hok.followed⟩⟩
  unfold visit
  split
  · exact hfail .enoent
  next dir hi =>
    split
    · exact hfail .enoent
    rename_i hneg
    split
    · exact hfail .enotdir
    rename_i hk
    simp only [followMount_eq, Except.bind]
    split
    · refine ⟨_, rfl, .failed ⟨?_, rfl⟩⟩
      rw [putPath_eq, add_sub_cancel_right]
      rfl
    rename_i hden
    have henters : Enters v.toTree w.path (cross v.toTree w.path) :=
      ⟨by simpa using hneg, ⟨dir, hi, not_not.1 hk, hden⟩, rfl⟩
    split
    · next hp => exact ⟨_, rfl, .parent hp.1 rfl rfl⟩
    rw [component_eq]
    cases hx : entry v.toTree (cross v.toTree w.path) (qstrMake c) with
    | error e =>
      refine ⟨_, rfl, .failed ⟨?_, rfl⟩⟩
      show (w.refs - own w.path + own (cross v.toTree w.path) + 0).putPath
        (cross v.toTree w.path) = _
      rw [putPath_eq, add_zero, add_sub_cancel_right]
      rfl
    | ok x =>
      -- The component is held as well, until it is given back or becomes the path.
      have hheld : w.refs - own w.path + own (cross v.toTree w.path) + own x -
          own (cross v.toTree w.path) - own x = w.held := by
        rw [add_sub_right_comm, add_sub_cancel_right, add_sub_cancel_right]
        rfl
      have hreach := @reach_spec _ _ _ _ v flags name
        { w with
          p, componentName := qstrMake c
          path := cross v.toTree w.path
          refs := w.refs - own w.path + own (cross v.toTree w.path) + own x } x rest
        ((text_congr rfl rfl).trans hrest)
      rcases hreach with ⟨e, w', h, hrefs, hf⟩ | ⟨w', h, hm, hh⟩ | ⟨w', t, h, hl, hf, hh⟩
      · exact ⟨_, h, .failed ⟨hrefs.trans hheld, hf⟩⟩
      · exact ⟨_, h, .moved henters hs hx ⟨hm.stays, hm.path, hm.text, hm.depth, hm.followed⟩
          (hh.trans hheld)⟩
      · exact ⟨_, h, .linked henters hs hx hl ⟨hf.under, hf.read, hf.nonempty, hf.fits,
          hf.path, hf.text, hf.depth, hf.followed⟩ (hh.trans hheld)⟩

/-- A turn comes to an end, whatever the directories and the links hold. -/
theorem turn_spec (hs : w.text name = .ok s) :
    ∃ t, turn v flags name w = .ok t ∧ Turned v flags name w s t := by
  unfold turn
  rw [hs]
  simp only [Except.bind]
  cases hc : skipComponent s with
  | none =>
    by_cases hp : flags.parent
    · obtain ⟨w', h, hok⟩ := lookupError_eq w .enoent
      exact ⟨_, rfl, by rw [if_pos hp, h]; exact .failed hok⟩
    · exact ⟨_, rfl, by rw [if_neg hp]; exact .ended (skipComponent_eq_none hc)⟩
  | some r =>
    obtain ⟨c, rest⟩ := r
    obtain ⟨-, -, hsuffix, -, -⟩ := skipComponent_eq_some hc
    have hrest := text_advance (c := qstrMake c) hs hsuffix
    simp only [hrest]
    exact visit_spec w _ hc hrest

end Turns

/-! ## The whole walk -/

section Runs

variable {δ μ : Type} [DecidableEq δ] [DecidableEq μ] {v : Vfs δ μ} {flags : Flags}
  {name s : List UInt8} {w w' : Walk δ μ} {r : Except Errno (Path δ μ × Name)} (fuel : Nat)

/-- The turns that are left: a link makes the text at most as long as a buffer, and the links that
may still be followed become fewer. -/
def Walk.left (w : Walk δ μ) (s : List UInt8) : Nat :=
  (maxSymlinks - w.depth) * pathMax + s.length

/-- The links that have been followed are counted, and are not too many. -/
structure Counted (w : Walk δ μ) : Prop where
  depth : w.followed.length = w.depth
  le : w.depth ≤ maxSymlinks

/-- A turn after which the walk goes on has a text to go on with, and fewer turns left. -/
theorem Turned.go (h : Turned v flags name w s (.go w')) (hw : Counted w) :
    ∃ s', w'.text name = .ok s' ∧ w'.left s' < w.left s ∧ w'.held = w.held ∧ Counted w' := by
  have hmax : pathMax = 512 := rfl
  have hlinks : maxSymlinks = 40 := rfl
  cases h with
  | moved hd hs hx h held =>
    obtain ⟨hne, -, -, hlen, -⟩ := skipComponent_eq_some hs
    have hpos := length_pos_of_ne_nil hne
    refine ⟨_, h.text, ?_, held, ?_, ?_⟩
    · unfold Walk.left
      rw [h.depth]
      omega
    · rw [h.followed, h.depth, hw.depth]
    · rw [h.depth]
      exact hw.le
  | linked hd hs hx hl h held =>
    have hfits := h.fits
    have hunder := h.under
    refine ⟨_, h.text, ?_, held, ?_, ?_⟩
    · unfold Walk.left
      rw [h.depth, hmax, hlinks]
      split
      · rw [length_tail]
        omega
      · omega
    · rw [h.followed, h.depth, length_cons, hw.depth]
    · rw [h.depth]
      exact hunder

/-- What a walk that has ended leaves behind. -/
structure Ended (held : Refs δ μ) (r : Except Errno (Path δ μ × Name)) (w' : Walk δ μ) : Prop where
  links : w'.followed.length ≤ maxSymlinks
  refs : w'.refs = held + owned (r.map Prod.fst)

theorem Turned.stop
    (h : Turned v flags name w s (.stop r w')) (hw : Counted w) : Ended w.held r w' := by
  have hle : w.followed.length ≤ maxSymlinks := hw.depth.trans_le hw.le
  cases h with
  | failed h =>
    refine ⟨by rwa [h.followed], ?_⟩
    rw [h.refs]
    exact (add_zero _).symm
  | ended hs => exact ⟨hle, (sub_add_cancel _ _).symm⟩
  | parent hp refs followed => exact ⟨by rwa [followed], refs⟩

theorem pathWalk_stop (h : turn v flags name w = .ok (.stop r w')) :
    pathWalk v flags name (fuel + 1) w = .ok (r, w') := by
  unfold pathWalk
  rw [h]
  rfl

theorem pathWalk_go (h : turn v flags name w = .ok (.go w')) :
    pathWalk v flags name (fuel + 1) w = pathWalk v flags name fuel w' := by
  conv => lhs; unfold pathWalk
  rw [h]
  rfl

/-- With as many turns as are left, the walk ends. -/
theorem pathWalk_ends {fuel : Nat} (hs : w.text name = .ok s) (hw : Counted w)
    (hfuel : w.left s < fuel) :
    ∃ r w', (∀ n, pathWalk v flags name (fuel + n) w = .ok (r, w')) ∧ Ended w.held r w' := by
  induction fuel generalizing w s with
  | zero => exact absurd hfuel (Nat.not_lt_zero _)
  | succ fuel ih =>
    obtain ⟨t, ht, hturned⟩ : ∃ t, turn v flags name w = .ok t ∧ Turned v flags name w s t :=
      turn_spec hs
    cases t with
    | stop r w' =>
      refine ⟨r, w', ?_, hturned.stop hw⟩
      intro n
      rw [Nat.add_right_comm]
      exact pathWalk_stop _ ht
    | go w' =>
      obtain ⟨s', hs', hlt, hheld, hw'⟩ := hturned.go hw
      obtain ⟨r, w'', hrun, hended⟩ := ih hs' hw' (Nat.lt_of_lt_of_le hlt (Nat.le_of_lt_succ hfuel))
      refine ⟨r, w'', ?_, hheld ▸ hended⟩
      intro n
      rw [Nat.add_right_comm, pathWalk_go _ ht]
      exact hrun n

/-- A string, as it is handed to `path_walk`. -/
structure CText where
  bytes : List UInt8
  noZero : 0 ∉ bytes

/-- The turns that a walk of a path takes at most. -/
def CText.turns (name : CText) : Nat := maxSymlinks * pathMax + name.bytes.length + 1

/-- **A walk ends, in its buffers and with its references in order.** For every path, all flags
and any directories and links, `path_walk` comes to an end after so many turns that the length of
the path bounds them, without a write outside its buffers. It has followed at most `MAXSYMLINKS`
links, and of the references there is one more, on the path that it returns, or with an error
none. -/
theorem pathWalk_returns (v : Vfs δ μ) (flags : Flags) (name : CText) (path : Path δ μ)
    (held : Refs δ μ) (target restbuf combined : Buffer) :
    ∃ r w', (∀ n, pathWalk v flags name.bytes (name.turns + n)
        (Walk.start path (held + own path) target restbuf combined) = .ok (r, w')) ∧
      w'.followed.length ≤ maxSymlinks ∧ w'.refs = held + owned (r.map Prod.fst) := by
  have hs : (Walk.start path (held + own path) target restbuf combined).text name.bytes =
      .ok name.bytes :=
    text_eq_ok.mpr (cstr_append_zero [] name.bytes [] name.noZero)
  obtain ⟨r, w', hrun, hended⟩ := @pathWalk_ends _ _ _ _ v flags _ _ _ _ hs
    ⟨rfl, Nat.zero_le _⟩ (Nat.lt_succ_self _)
  refine ⟨r, w', hrun, hended.links, ?_⟩
  rw [hended.refs]
  show held + own path - own path + _ = _
  rw [add_sub_cancel_right]

end Runs

/-- A second file system is mounted on the directory `m` of the first, and in its root is a link `l`
that leads to itself. -/
def linkCycle : Vfs (Fin 4) (Fin 2) where
  negative _ := false
  inode d := some ⟨if d = 3 then .lnk else .dir, none, true⟩
  parent d := if d < 2 then 0 else 2
  isMounted d := d = 1
  root m := if m = 0 then 0 else 2
  above _ := 0
  mountPoint _ := 1
  mountStateLookup m d := if m = 0 ∧ d = 1 then some 1 else none
  lookup d name :=
    if d = 0 ∧ name = [109] then .ok 1 else if d = 2 ∧ name = [108] then .ok 3 else .error .enoent
  fsRoot := ⟨0, 0⟩
  cwd := ⟨0, 0⟩
  mounts := 2
  rank m := m
  rank_lt m := m.isLt
  rank_above := by decide
  rank_lookup := by decide
  parent_root := by decide
  readlink _ n := .ok ([108].take n, 1)
  readlink_le := by
    rintro d n bs len ⟨⟩
    exact length_take_le n _

/-- A buffer of zeros. -/
def zeroBuffer : Buffer := ⟨replicate pathMax 0, length_replicate⟩

/-- The walk of `m/l` crosses the mount, follows the link `MAXSYMLINKS` times and fails with
`ELOOP`, and all references are given back. -/
theorem pathWalk_returns_cycle : ∃ w', (∀ n,
      pathWalk linkCycle ⟨false, true, false, false⟩ [109, 47, 108] (20484 + n)
        (.start ⟨0, 0⟩ (0 + own ⟨0, 0⟩) zeroBuffer zeroBuffer zeroBuffer) =
          .ok (.error .eloop, w')) ∧ w'.followed.length ≤ maxSymlinks ∧ w'.refs = 0 := by
  obtain ⟨r, w', hrun, hlinks, hrefs⟩ := pathWalk_returns linkCycle ⟨false, true, false, false⟩
    ⟨[109, 47, 108], by decide⟩ ⟨0, 0⟩ 0 zeroBuffer zeroBuffer zeroBuffer
  have hloop : (pathWalk linkCycle ⟨false, true, false, false⟩ [109, 47, 108] 20484
      (.start ⟨0, 0⟩ (0 + own ⟨0, 0⟩) zeroBuffer zeroBuffer zeroBuffer)).map Prod.fst =
        .ok (.error .eloop) := by decide +kernel
  obtain rfl := Except.ok.inj ((congrArg (Except.map Prod.fst) (hrun 0)).symm.trans hloop)
  exact ⟨w', hrun, hlinks, hrefs⟩

end BrkKernel.Lookup
