import DevMachine.Channel.Failure
import DevMachine.Channel.Frame

/-!
# The message bus of a link

A bus shares one link among many subscriptions.  Each channel has at most one
owner, the subscription that its traffic is delivered to; a new subscription
to a channel takes it over from the earlier one.

A subscription has a mailbox of its own, so items that were delivered stay readable
whatever becomes of the channel.  Once it owns nothing any more and its mailbox is
empty, it has ended.
-/

namespace DevMachine.Channel

open Json (Value)

/-- What a subscription receives: the body of an event, or a failure. -/
abbrev Item := Except Failure Value

/-- What one subscription has received and not read yet.  Nobody can read the
mailbox of a subscription that was dropped. -/
structure Mailbox where
  channel : String
  items : List Item := []
  dropped : Bool := false

/-- What a reader finds in a mailbox. -/
inductive Reading
  | item (item : Item)
  | waiting
  | ended

/-- The queue to the endpoint, the owner of each channel and the mailboxes of
all subscriptions made so far.  New frames carry the time `stamp`. -/
structure Bus where
  isOpen : Bool := true
  outbound : List Frame := []
  owners : List (String × Nat) := []
  mailboxes : List Mailbox := []
  stamp : Int64 := 0

namespace Bus

/-- The subscription that owns a channel. -/
def owner? (b : Bus) (channel : String) : Option Nat :=
  (b.owners.find? (·.1 = channel)).map (·.2)

/-- Whether a subscription owns its channel. -/
def owns (b : Bus) (id : Nat) : Bool := b.owners.any (·.2 = id)

/-- The channels that have an owner, in ascending order. -/
def channels (b : Bus) : List String := (b.owners.map (·.1)).mergeSort (· ≤ ·)

def forget (b : Bus) (channel : String) : Bus :=
  { b with owners := b.owners.filter (·.1 ≠ channel) }

def setOwner (b : Bus) (channel : String) (id : Nat) : Bus :=
  { b with owners := (channel, id) :: (b.forget channel).owners }

def updateMailbox (b : Bus) (id : Nat) (f : Mailbox → Mailbox) : Bus :=
  { b with mailboxes := b.mailboxes.modify id f }

def addMailbox (b : Bus) (box : Mailbox) : Bus := { b with mailboxes := b.mailboxes ++ [box] }

/-- Queues a frame for the endpoint. -/
def send (b : Bus) (frame : Frame) : Except Failure Unit × Bus :=
  if b.isOpen then (.ok (), { b with outbound := b.outbound ++ [frame] })
  else (.error .closed, b)

/-- Tells the endpoint first and then makes the new subscription the owner of
the channel. -/
def subscribe (b : Bus) (channel : String) : Except Failure Nat × Bus :=
  match b.send (.subscribe channel b.stamp) with
  | (.error e, b) => (.error e, b)
  | (.ok (), b) =>
    let id := b.mailboxes.length
    (.ok id, (b.addMailbox { channel }).setOwner channel id)

/-- Gives a channel up and tells the endpoint, unless another subscription
owns the channel by now. -/
def release (b : Bus) (channel : String) (id : Nat) : Bus :=
  match b.owner? channel with
  | some current =>
    if current = id then ((b.forget channel).send (.unsubscribe channel b.stamp)).2 else b
  | none => (b.send (.unsubscribe channel b.stamp)).2

def unsubscribe (b : Bus) (id : Nat) : Bus :=
  match b.mailboxes[id]? with
  | some box => b.release box.channel id
  | none => b

/-- The reader of a subscription goes away without giving the channel up. -/
def drop (b : Bus) (id : Nat) : Bus :=
  b.updateMailbox id fun box => { box with items := [], dropped := true }

/-- Puts an item into a mailbox that somebody can read. -/
def post (b : Bus) (id : Nat) (item : Item) : Bus :=
  b.updateMailbox id fun box =>
    if box.dropped then box else { box with items := box.items ++ [item] }

def isDropped (b : Bus) (id : Nat) : Bool := (b.mailboxes[id]?.map Mailbox.dropped).getD true

/-- Hands an item to the owner of a channel.  An owner whose reader has gone
away loses the channel by it. -/
def deliver (b : Bus) (channel : String) (item : Item) : Bus :=
  match b.owner? channel with
  | some id => if b.isDropped id then b.forget channel else b.post id item
  | none => b

/-- Routes a frame of the endpoint.  Only events and errors of a channel
concern anyone. -/
def dispatch (b : Bus) : Frame → Bus
  | .event channel body => b.deliver channel (.ok body)
  | .error (some channel) message => b.deliver channel (.error (.remote channel message))
  | _ => b

/-- Ends all subscriptions without a failure. -/
def clear (b : Bus) : Bus := { b with owners := [] }

/-- Ends all subscriptions with a failure, which each owner gets last. -/
def failAll (b : Bus) (failure : Failure) : Bus :=
  (b.owners.foldl (fun b entry => b.post entry.2 (.error failure)) b).clear

/-- The endpoint takes no more frames. -/
def closeOutbound (b : Bus) : Bus := { b with isOpen := false }

/-- What is to be read next: the oldest item, if any. -/
def reading (b : Bus) (id : Nat) : Reading :=
  match b.mailboxes[id]? with
  | some { items := item :: _, .. } => .item item
  | _ => if b.owns id then .waiting else .ended

/-- Reads the oldest item of a subscription. -/
def next (b : Bus) (id : Nat) : Reading × Bus :=
  (b.reading id, b.updateMailbox id fun box => { box with items := box.items.tail })

end Bus

end DevMachine.Channel
