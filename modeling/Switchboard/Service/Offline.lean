/-!
# Messages for those who are away

A message for somebody without a connection is kept as unread, in the order of arrival. It is listed
page by page until it is marked as read, and kept even then.
-/

namespace Switchboard

/-- A message that is kept for its target. -/
structure StoredMessage where
  messageId : String
  sender : String
  target : String
  content : String
  isRead : Bool
  /-- Milliseconds since the epoch. -/
  createdAt : Nat
  deriving DecidableEq, Repr

/-- Every message that was kept, the oldest first. -/
abbrev OfflineStore := List StoredMessage

namespace OfflineStore

/-- The greatest number of messages on a page. -/
def maxPageSize : Nat := 100

/-- The number of messages on a page that was asked to have `limit`. -/
def pageSize (limit : Nat) : Nat := min (max 1 limit) maxPageSize

/-- The number of messages before a page; pages count from one, and page zero is the first. -/
def pageStart (page limit : Nat) : Nat := (max 1 page - 1) * pageSize limit

/-- Keeps a message as unread. -/
def persist (s : OfflineStore) (messageId sender target content : String) (now : Nat) :
    OfflineStore :=
  s ++ [{ messageId, sender, target, content, isRead := false, createdAt := now }]

def isUnreadFor (target : String) (m : StoredMessage) : Bool := m.target = target && !m.isRead

/-- The unread messages of a target. -/
def unreadFor (s : OfflineStore) (target : String) : List StoredMessage :=
  s.filter (isUnreadFor target)

/-- One page of the unread messages of a target. -/
def listUnread (s : OfflineStore) (target : String) (page limit : Nat) : List StoredMessage :=
  ((s.unreadFor target).drop (pageStart page limit)).take (pageSize limit)

/-- Whether marking some messages of a target as read changes a message. -/
def isMarked (target : String) (ids : List String) (m : StoredMessage) : Bool :=
  isUnreadFor target m && ids.contains m.messageId

/-- Marks messages of a target as read, and counts those that were unread. -/
def markRead (s : OfflineStore) (target : String) (ids : List String) : Nat × OfflineStore :=
  (s.countP (isMarked target ids),
    s.map fun m => if isMarked target ids m then { m with isRead := true } else m)

end OfflineStore

end Switchboard
