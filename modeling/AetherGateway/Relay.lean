/-
  AetherGateway.Relay — a relay between clients and servers, as both of them see it.

  What a client says under a key goes to the conversation under the key; the first that is
  said begins one, with the server that it names. A conversation is given a channel to its
  server, hands on to it what it holds, in order, and is told all that comes in on it. When
  a channel fails its conversations end; one that was given a failed channel may end later.
  Channels are named by the order in which they are opened.

  That a conversation's channel is one to its server is part of a relay (`connected`), so
  every move keeps it. In every run:
  - `handed_sublist`: what is handed on under a key, and what is held, was said under it:
    nothing twice and in order, whatever fails and ends.
  - `uses_asked`: a conversation hands on and is told only over channels to a server that
    was named under its key.
-/

import Mathlib.Logic.Function.Basic
import AetherGateway.Simulation

namespace AetherGateway

open AetherGateway.Runs

namespace Relay

structure Conversation (σ δ : Type*) where
  server : σ
  channel : Option Nat
  held : List δ

end Relay

structure Relay (κ σ δ : Type*) where
  /-- The server of each channel. -/
  channels : List σ
  failed : Nat → Prop
  conversation : κ → Option (Relay.Conversation σ δ)
  connected : ∀ k c x, conversation k = some c → c.channel = some x → channels[x]? = some c.server

namespace Relay

variable {κ σ δ : Type*} {r : Relay κ σ δ} {k : κ} {c : Conversation σ δ} {x : Nat}

def empty : Relay κ σ δ where
  channels := []
  failed _ := False
  conversation _ := none
  connected _ _ _ h := by cases h

def openChannel (r : Relay κ σ δ) (server : σ) : Relay κ σ δ where
  channels := r.channels ++ [server]
  failed := r.failed
  conversation := r.conversation
  connected k c x hk hx := by
    have h := r.connected k c x hk hx
    rw [List.getElem?_append_left (List.getElem?_eq_some_iff.mp h).1]
    exact h

/-- The channel's conversations end. -/
def fail (r : Relay κ σ δ) (x : Nat) : Relay κ σ δ where
  channels := r.channels
  failed y := y = x ∨ r.failed y
  conversation k := (r.conversation k).filter (·.channel != some x)
  connected k c y hk hy := by
    obtain ⟨hk, -⟩ := Option.filter_eq_some_iff.mp hk
    exact r.connected k c y hk hy

variable [DecidableEq κ]

def set (r : Relay κ σ δ) (k : κ) (c : Conversation σ δ) (hc : ∀ x, c.channel = some x → r.channels[x]? = some c.server) :
    Relay κ σ δ where
  channels := r.channels
  failed := r.failed
  conversation := Function.update r.conversation k (some c)
  connected j c' x hj hx := by
    by_cases hjk : j = k
    · rw [hjk, Function.update_self] at hj
      cases hj
      exact hc x hx
    · rw [Function.update_of_ne hjk] at hj
      exact r.connected j c' x hj hx

def forget (r : Relay κ σ δ) (k : κ) : Relay κ σ δ where
  channels := r.channels
  failed := r.failed
  conversation := Function.update r.conversation k none
  connected j c x hj hx := by
    by_cases hjk : j = k
    · rw [hjk, Function.update_self] at hj
      cases hj
    · rw [Function.update_of_ne hjk] at hj
      exact r.connected j c x hj hx

inductive Label (κ σ δ : Type*) where
  | opened (server : σ)
  | said (k : κ) (server : σ) (d : δ)
  | connected (k : κ) (x : Nat)
  | handedOn (k : κ) (x : Nat) (ds : List δ)
  | failed (x : Nat)
  | ended (k : κ)
  | told (x : Nat) (d : δ) (keys : List κ)

inductive Step : Relay κ σ δ → Label κ σ δ → Relay κ σ δ → Prop where
  | opens (r : Relay κ σ δ) (server : σ) : Step r (.opened server) (r.openChannel server)
  | begins {r : Relay κ σ δ} {k : κ} (hk : r.conversation k = none) (server : σ) (d : δ) :
      Step r (.said k server d) (r.set k ⟨server, none, [d]⟩ fun _ h => by cases h)
  | continues {r : Relay κ σ δ} {k : κ} {c : Conversation σ δ} (hk : r.conversation k = some c) (server : σ) (d : δ) :
      Step r (.said k server d) (r.set k { c with held := c.held ++ [d] } (r.connected k c · hk))
  | connects {r : Relay κ σ δ} {k : κ} {c : Conversation σ δ} {x : Nat} (hk : r.conversation k = some c)
      (hn : c.channel = none) (hx : r.channels[x]? = some c.server) :
      Step r (.connected k x) (r.set k { c with channel := some x } fun y hy => by
        cases hy
        exact hx)
  | handsOn {r : Relay κ σ δ} {k : κ} {c : Conversation σ δ} {x : Nat} {ds rest : List δ}
      (hk : r.conversation k = some c) (hx : c.channel = some x) (hd : c.held = ds ++ rest) :
      Step r (.handedOn k x ds) (r.set k { c with held := rest } (r.connected k c · hk))
  | fails (r : Relay κ σ δ) (x : Nat) : Step r (.failed x) (r.fail x)
  | ends {r : Relay κ σ δ} {k : κ} {c : Conversation σ δ} {x : Nat} (hk : r.conversation k = some c)
      (hx : c.channel = some x) (hf : r.failed x) : Step r (.ended k) (r.forget k)
  | tells {r : Relay κ σ δ} {x : Nat} {keys : List κ} (hkeys : keys.Nodup)
      (h : ∀ k, k ∈ keys ↔ ∃ c, r.conversation k = some c ∧ c.channel = some x) (d : δ) : Step r (.told x d keys) r

variable {l : Label κ σ δ} {ls : List (Label κ σ δ)} {u : Relay κ σ δ}

/-! ## What is handed on -/

def Label.saidUnder (k : κ) : Label κ σ δ → List δ
  | .said j _ d => if j = k then [d] else []
  | _ => []

def Label.handedUnder (k : κ) : Label κ σ δ → List δ
  | .handedOn j _ ds => if j = k then ds else []
  | _ => []

def heldUnder (r : Relay κ σ δ) (k : κ) : List δ := (r.conversation k).elim [] (·.held)

theorem set_conversation (r : Relay κ σ δ) (j : κ) (c : Conversation σ δ)
    (hc : ∀ x, c.channel = some x → r.channels[x]? = some c.server) (k : κ) :
    (r.set j c hc).conversation k = if k = j then some c else r.conversation k := by
  unfold set
  by_cases hk : k = j
  · rw [if_pos hk, hk]
    exact Function.update_self ..
  · rw [if_neg hk]
    exact Function.update_of_ne hk ..

omit [DecidableEq κ] in
theorem heldUnder_of (hk : r.conversation k = some c) : r.heldUnder k = c.held := by
  rw [heldUnder, hk, Option.elim_some]

omit [DecidableEq κ] in
theorem fail_conversation (h : (r.fail x).conversation k = some c) : r.conversation k = some c :=
  (Option.filter_eq_some_iff.mp h).1

theorem forget_conversation {j : κ} (h : (r.forget j).conversation k = some c) : r.conversation k = some c := by
  unfold forget at h
  by_cases hk : k = j
  · simp only [hk, Function.update_self] at h
    cases h
  · simpa only [Function.update_of_ne hk] using h

/-- Only what is held by a conversation that ends is lost. -/
theorem Step.handed_sublist (h : Step r l u) (k : κ) :
    (l.handedUnder k ++ u.heldUnder k).Sublist (r.heldUnder k ++ l.saidUnder k) := by
  -- a conversation that changes leaves those of the other keys
  have changes : ∀ {l : Label κ σ δ} {j : κ} {c : Conversation σ δ}
      {hc : ∀ x, c.channel = some x → r.channels[x]? = some c.server},
      (k = j → l.handedUnder k ++ c.held = r.heldUnder k ++ l.saidUnder k) →
      (j ≠ k → l.handedUnder k = [] ∧ l.saidUnder k = []) →
      (l.handedUnder k ++ (r.set j c hc).heldUnder k).Sublist (r.heldUnder k ++ l.saidUnder k) := by
    intro l j c hc hsame hother
    by_cases hk : k = j
    · rewrite [heldUnder_of ((set_conversation r j c hc k).trans (if_pos hk)), hsame hk]
      exact List.Sublist.refl _
    · obtain ⟨hh, hs⟩ := hother (Ne.symm hk)
      rewrite [heldUnder, set_conversation, if_neg hk, hh, hs, List.append_nil]
      exact List.Sublist.refl _
  have lost : ∀ {v : Relay κ σ δ}, (∀ c, v.conversation k = some c → r.conversation k = some c) →
      (v.heldUnder k).Sublist (r.heldUnder k ++ []) := by
    intro v hv
    rw [List.append_nil]
    cases hk : v.conversation k with
    | none =>
      rw [heldUnder, hk]
      exact List.nil_sublist _
    | some c =>
      rewrite [heldUnder_of hk, heldUnder_of (hv c hk)]
      exact List.Sublist.refl _
  cases h with
  | opens | tells => exact lost fun _ hk => hk
  | begins hk server d =>
    refine changes (fun hj => ?_) fun hj => ⟨rfl, if_neg hj⟩
    subst hj
    simp [Label.handedUnder, Label.saidUnder, heldUnder, hk]
  | continues hk server d =>
    refine changes (fun hj => ?_) fun hj => ⟨rfl, if_neg hj⟩
    subst hj
    simp [Label.handedUnder, Label.saidUnder, heldUnder_of hk]
  | connects hk hn hx =>
    refine changes (fun hj => ?_) fun _ => ⟨rfl, rfl⟩
    subst hj
    simp [Label.handedUnder, Label.saidUnder, heldUnder_of hk]
  | handsOn hk hx hd =>
    refine changes (fun hj => ?_) fun hj => ⟨if_neg hj, rfl⟩
    subst hj
    simp [Label.handedUnder, Label.saidUnder, heldUnder_of hk, hd]
  | fails x => exact lost fun _ => fail_conversation
  | ends hk hx hf => exact lost fun _ => forget_conversation

/-- Whatever fails and ends, what is handed on under a key was said under it: nothing twice,
    and in order. -/
theorem handed_sublist (h : Steps Step r ls u) (k : κ) :
    (ls.flatMap (Label.handedUnder k) ++ u.heldUnder k).Sublist (r.heldUnder k ++ ls.flatMap (Label.saidUnder k)) := by
  induction h with
  | nil r => simp
  | cons hd _ ih =>
    simp only [List.flatMap_cons, List.append_assoc]
    refine (ih.append_left _).trans ?_
    rw [← List.append_assoc, ← List.append_assoc]
    exact (hd.handed_sublist k).append_right _

/-! ## Over which channels -/

/-- The conversation under the key hands on to the channel, or is told what comes in on it. -/
def Label.uses (k : κ) (x : Nat) : Label κ σ δ → Prop
  | .handedOn j y _ => j = k ∧ y = x
  | .told y _ keys => y = x ∧ k ∈ keys
  | _ => False

theorem Step.uses (h : Step r l u) (hu : l.uses k x) :
    ∃ c, r.conversation k = some c ∧ r.channels[x]? = some c.server := by
  cases h with
  | handsOn hk hx hd =>
    obtain ⟨rfl, rfl⟩ := hu
    exact ⟨_, hk, r.connected _ _ _ hk hx⟩
  | tells hkeys h d =>
    obtain ⟨rfl, hmem⟩ := hu
    obtain ⟨c, hk, hx⟩ := (h k).mp hmem
    exact ⟨c, hk, r.connected k c _ hk hx⟩
  | opens | begins | continues | connects | fails | ends => exact hu.elim

theorem Step.channels (h : Step r l u) : r.channels <+: u.channels := by
  cases h with
  | opens server => exact List.prefix_append _ _
  | begins | continues | connects | handsOn | fails | ends | tells => exact List.prefix_rfl

/-- A conversation goes on with the server it began with. -/
theorem Step.server (h : Step r l u) (hk : u.conversation k = some c) :
    (∃ c₀, r.conversation k = some c₀ ∧ c₀.server = c.server) ∨ ∃ d, l = .said k c.server d := by
  -- a conversation that changes keeps its server
  have goes_on : ∀ {j : κ} {c₀ c₁ : Conversation σ δ} {hc : ∀ x, c₁.channel = some x → r.channels[x]? = some c₁.server},
      (r.set j c₁ hc).conversation k = some c → r.conversation j = some c₀ → c₀.server = c₁.server →
      ∃ c₀, r.conversation k = some c₀ ∧ c₀.server = c.server := by
    intro j c₀ c₁ hc hk hj hs
    rw [set_conversation] at hk
    by_cases hkj : k = j
    · rw [if_pos hkj] at hk
      cases hk
      exact ⟨c₀, hkj ▸ hj, hs⟩
    · rw [if_neg hkj] at hk
      exact ⟨c, hk, rfl⟩
  cases h with
  | opens | tells => exact Or.inl ⟨c, hk, rfl⟩
  | @begins j hj server d =>
    rw [set_conversation] at hk
    by_cases hkj : k = j
    · rw [if_pos hkj] at hk
      cases hk
      exact Or.inr ⟨d, by rw [hkj]⟩
    · rw [if_neg hkj] at hk
      exact Or.inl ⟨c, hk, rfl⟩
  | continues hj => exact Or.inl (goes_on hk hj rfl)
  | connects hj => exact Or.inl (goes_on hk hj rfl)
  | handsOn hj => exact Or.inl (goes_on hk hj rfl)
  | fails => exact Or.inl ⟨c, fail_conversation hk, rfl⟩
  | ends => exact Or.inl ⟨c, forget_conversation hk, rfl⟩

theorem channels_grow (h : Steps Step r ls u) : r.channels <+: u.channels := by
  induction h with
  | nil r => exact List.prefix_rfl
  | cons hd _ ih => exact hd.channels.trans ih

/-- A conversation hands on and is told only over channels to a server that was named under
    its key. -/
theorem uses_asked (h : Steps Step r ls u) (hl : l ∈ ls) (hu : l.uses k x) :
    ∃ server, u.channels[x]? = some server ∧
      ((∃ c, r.conversation k = some c ∧ c.server = server) ∨ ∃ d, .said k server d ∈ ls) := by
  induction h with
  | nil => cases hl
  | @cons r v u l' ls hd hs ih =>
    rcases List.mem_cons.mp hl with rfl | hl
    · obtain ⟨c, hk, hx⟩ := hd.uses hu
      refine ⟨c.server, ?_, Or.inl ⟨c, hk, rfl⟩⟩
      obtain ⟨cs, hcs⟩ := hd.channels.trans (channels_grow hs)
      rw [← hcs, List.getElem?_append_left (List.getElem?_eq_some_iff.mp hx).1]
      exact hx
    · obtain ⟨server, hx, ⟨c, hk, rfl⟩ | ⟨d, hsaid⟩⟩ := ih hl
      · refine ⟨c.server, hx, (hd.server hk).imp_right fun ⟨d, he⟩ => ⟨d, ?_⟩⟩
        rw [he]
        exact List.mem_cons_self
      · exact ⟨server, hx, Or.inr ⟨d, List.mem_cons_of_mem _ hsaid⟩⟩

end Relay

end AetherGateway
