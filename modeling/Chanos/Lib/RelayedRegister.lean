import Mathlib.Data.List.Basic

/-!
# A register that two parties write, with a relay

A primary and a secondary each have a copy of an optional value. A party that changes its copy
announces the change to the other over a channel that keeps the order: `add` where there was no
value, `upd` where there was another one, `del` where the value is gone.
-/

namespace Chanos.Lib

open List

variable {β : Type}

inductive RegMsg (β : Type)
  | add (b : β)
  | upd (b : β)
  | del

def RegMsg.apply : RegMsg β → Option β → Option β
  | add b, _ => some b
  | upd _, none => none
  | upd b, some _ => some b
  | del, _ => none

theorem RegMsg.isSome_apply {m : RegMsg β} (hm : m ≠ .del) {v : Option β}
    (h : v.isSome = true ∨ v ≠ m.apply v) : (m.apply v).isSome = true := by
  cases m with
  | add b => rfl
  | del => exact absurd rfl hm
  | upd b =>
    cases v with
    | none => simp [apply] at h
    | some a => rfl

def receive (msgs : List (RegMsg β)) (v : Option β) : Option β :=
  msgs.foldl (fun v m => m.apply v) v

@[simp]
theorem receive_nil (v : Option β) : receive [] v = v := rfl

@[simp]
theorem receive_cons (m : RegMsg β) (msgs : List (RegMsg β)) (v : Option β) :
    receive (m :: msgs) v = receive msgs (m.apply v) := rfl

@[simp]
theorem receive_append (l l' : List (RegMsg β)) (v : Option β) :
    receive (l ++ l') v = receive l' (receive l v) :=
  foldl_append

theorem receive_const_or (msgs : List (RegMsg β)) :
    (∀ v v', receive msgs v = receive msgs v') ∨
      receive msgs none = none ∧
        ∀ b b', (receive msgs (some b)).isSome = true ∧
          (msgs ≠ [] → receive msgs (some b) = receive msgs (some b')) := by
  induction msgs with
  | nil => exact .inr ⟨rfl, fun b b' => ⟨rfl, absurd rfl⟩⟩
  | cons m msgs ih =>
    cases m with
    | add b | del => exact .inl fun v v' => rfl
    | upd b =>
      rcases ih with ih | ⟨hno, hso⟩
      · exact .inl fun v v' => ih _ _
      · exact .inr ⟨hno, fun b₁ b₂ => ⟨(hso b b).1, fun _ => rfl⟩⟩

section

variable {ι : Type} [DecidableEq ι]

def onRegister (i : ι) (msgs : List (Option (ι × RegMsg β))) : List (RegMsg β) :=
  msgs.filterMap fun m => m.bind fun p => if p.1 = i then some p.2 else none

variable (i : ι) (l : List (Option (ι × RegMsg β)))

@[simp]
theorem onRegister_append (l' : List (Option (ι × RegMsg β))) :
    onRegister i (l ++ l') = onRegister i l ++ onRegister i l' :=
  filterMap_append

theorem onRegister_cons (a : Option (ι × RegMsg β)) :
    onRegister i (a :: l) = onRegister i [a] ++ onRegister i l :=
  onRegister_append i [a] l

@[simp]
theorem onRegister_cons_self (m : RegMsg β) :
    onRegister i (some (i, m) :: l) = m :: onRegister i l := by
  simp [onRegister]

theorem onRegister_cons_of_ne {i j : ι} (h : j ≠ i) (m : RegMsg β)
    (l : List (Option (ι × RegMsg β))) : onRegister i (some (j, m) :: l) = onRegister i l := by
  simp [onRegister, h]

end

/-! ## Announcements -/

variable [DecidableEq β]

def announce : Option β → Option β → List (RegMsg β)
  | none, none => []
  | none, some b => [.add b]
  | some _, none => [.del]
  | some a, some b => if a = b then [] else [.upd b]

@[simp]
theorem announce_self (v : Option β) : announce v v = [] := by
  cases v with
  | none => rfl
  | some b => exact if_pos rfl

theorem of_mem_announce {v w : Option β} {m : RegMsg β} (h : m ∈ announce v w) :
    v ≠ w ∧ (m = .del ↔ w = none) := by
  refine ⟨fun hv => ?_, ?_⟩
  · rw [hv, announce_self] at h
    exact not_mem_nil h
  cases w with
  | none =>
    cases v with
    | none => exact absurd h not_mem_nil
    | some a => exact ⟨fun _ => rfl, fun _ => mem_singleton.mp h⟩
  | some b =>
    refine ⟨fun hd => ?_, nofun⟩
    subst hd
    cases v with
    | none => nomatch mem_singleton.mp h
    | some a =>
      rw [announce] at h
      split_ifs at h
      · exact absurd h not_mem_nil
      · nomatch mem_singleton.mp h

@[simp]
theorem receive_announce (v w : Option β) : receive (announce v w) v = w := by
  cases v with
  | none => cases w <;> rfl
  | some a =>
    cases w with
    | none => rfl
    | some b =>
      rw [announce]
      split_ifs with h
      · exact congrArg some h
      · rfl

theorem receive_announce_self (v w : Option β) : receive (announce v w) w = w := by
  cases v with
  | none => cases w <;> rfl
  | some a =>
    cases w with
    | none => rfl
    | some b =>
      rw [announce]
      split_ifs <;> rfl

theorem receive_announce_none (a b : β) : receive (announce (some a) (some b)) none = none := by
  rw [announce]
  split_ifs <;> rfl

def relays : List (RegMsg β) → Option β → List (RegMsg β)
  | [], _ => []
  | m :: msgs, x => announce x (m.apply x) ++ relays msgs (m.apply x)

theorem relays_append (l l' : List (RegMsg β)) (x : Option β) :
    relays (l ++ l') x = relays l x ++ relays l' (receive l x) := by
  induction l generalizing x with
  | nil => rfl
  | cons m l ih => rw [cons_append, relays, relays, ih, append_assoc, receive_cons]

theorem receive_relays (l : List (RegMsg β)) (x : Option β) :
    receive (relays l x) x = receive l x := by
  induction l generalizing x with
  | nil => rfl
  | cons m l ih => rw [relays, receive_append, receive_announce, ih, receive_cons]

theorem receive_relays_none (l : List (RegMsg β)) (a b : β)
    (h : receive (relays l (some a)) none = receive l (some a)) :
    receive (relays l (some b)) none = receive l (some b) := by
  cases l with
  | nil => cases h
  | cons m l =>
    cases m with
    | del => exact receive_relays l none
    | add c | upd c =>
      simp only [relays, receive_append, receive_cons, RegMsg.apply, receive_announce_none] at h ⊢
      exact h

/-! ## The two parties -/

def Converging (v : Option β) (down up : List (RegMsg β)) (x : Option β) : Prop :=
  receive (down ++ relays up x) v = receive up x

namespace Converging

variable {v x : Option β} {down up : List (RegMsg β)} {m : RegMsg β}

theorem start (x : Option β) : Converging x [] [] x := rfl

theorem agree (h : Converging v [] [] x) : v = x := h

theorem receive_up (h : Converging v down (m :: up) x) :
    Converging v (down ++ announce x (m.apply x)) up (m.apply x) := by
  unfold Converging at h ⊢
  rw [relays, receive_cons, ← append_assoc] at h
  exact h

theorem write_primary (h : Converging v down up x) (y : Option β) :
    Converging v (down ++ announce x y) up y := by
  unfold Converging at h ⊢
  rw [receive_append] at h
  rw [receive_append, receive_append]
  generalize receive down v = a at h ⊢
  cases hx : x with
  | none =>
    -- A value that is added replaces whatever the secondary has.
    cases y with
    | none =>
      rw [hx] at h
      exact h
    | some b => exact receive_relays up (some b)
  | some c =>
    cases y with
    | none => exact receive_relays up none
    | some b =>
      cases a with
      | none =>
        rw [receive_announce_none]
        rw [hx] at h
        exact receive_relays_none up c b h
      | some d =>
        by_cases hc : c = b
        · rw [hx, hc] at h
          rw [hc, announce_self, receive_nil]
          exact h
        · have hn : receive (announce (some c) (some b)) (some d) = some b := by
            rw [announce, if_neg hc]
            rfl
          rw [hn]
          exact receive_relays up (some b)

theorem write_secondary (h : Converging v down up x) (w : Option β) :
    Converging w down (up ++ announce v w) x := by
  by_cases hv : v = w
  · subst hv
    rwa [announce_self, append_nil]
  unfold Converging at h ⊢
  rw [relays_append, ← append_assoc, receive_append, receive_append up]
  generalize down ++ relays up x = inbound at h ⊢
  generalize receive up x = z at h ⊢
  -- A secondary that has caught up with the primary follows it through its own write.
  have hc : receive inbound w = z →
      receive (relays (announce v w) z) (receive inbound w) = receive (announce v w) z := by
    intro hw
    rw [hw]
    exact receive_relays _ _
  rcases receive_const_or inbound with hcn | ⟨hno, hso⟩
  · exact hc ((hcn w v).trans h)
  cases v with
  | none =>
    -- The primary has no value either, and takes the one that was added.
    obtain rfl : z = none := h.symm.trans hno
    cases w with
    | none => exact absurd rfl hv
    | some b => rfl
  | some a =>
    cases w with
    | none =>
      rw [hno]
      cases z <;> rfl
    | some b =>
      by_cases he : inbound = []
      · subst he
        obtain rfl : some a = z := h
        have hup : announce (some a) (some b) = [.upd b] := by
          rw [announce, if_neg fun ha => hv (congrArg some ha)]
        rw [hup]
        change receive (announce (some a) (some b) ++ []) (some b) = some b
        rw [append_nil, receive_announce_self]
      · exact hc (((hso b a).2 he).trans h)

/-! The same steps with messages about many registers. -/

variable {ι : Type} [DecidableEq ι] {i : ι} {a : Option (ι × RegMsg β)}
  {msgs : List (Option (ι × RegMsg β))}

theorem receive_down_on (h : Converging v (onRegister i (a :: msgs)) up x) :
    Converging (receive (onRegister i [a]) v) (onRegister i msgs) up x := by
  unfold Converging at h ⊢
  rwa [onRegister_cons, append_assoc, receive_append] at h

theorem receive_up_on (h : Converging v down (onRegister i (a :: msgs)) x) :
    Converging v (down ++ announce x (receive (onRegister i [a]) x)) (onRegister i msgs)
      (receive (onRegister i [a]) x) := by
  have ho : onRegister i (a :: msgs) = onRegister i msgs → onRegister i [a] = [] →
      Converging v (down ++ announce x (receive (onRegister i [a]) x)) (onRegister i msgs)
        (receive (onRegister i [a]) x) := by
    intro hms hon
    rw [hms] at h
    rwa [hon, receive_nil, announce_self, append_nil]
  rcases a with _ | ⟨j, m⟩
  · exact ho rfl rfl
  by_cases hi : j = i
  · subst hi
    rw [onRegister_cons_self] at h ⊢
    exact h.receive_up
  · exact ho (onRegister_cons_of_ne hi m msgs) (onRegister_cons_of_ne hi m [])

end Converging

end Chanos.Lib
