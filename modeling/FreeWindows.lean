import FreeWindows.Atom.Runs
import FreeWindows.Completion.Runs
import FreeWindows.Fd.Boundaries
import FreeWindows.File.Names
import FreeWindows.Handle.Tables
import FreeWindows.Locale.Sizes
import FreeWindows.Mapping.Addresses
import FreeWindows.Objects.Runs
import FreeWindows.Oleaut.Decimal
import FreeWindows.Region.Transform
import FreeWindows.Registry.Branches
import FreeWindows.Registry.KeyText
import FreeWindows.Registry.Volatile
import FreeWindows.Rtl.Acl.Runs
import FreeWindows.Rtl.Compress
import FreeWindows.Rtl.CriticalSection.Runs
import FreeWindows.Rtl.Descriptor
import FreeWindows.Rtl.Resource.Runs
import FreeWindows.Rtl.RunOnce.Runs
import FreeWindows.Rtl.SList.Runs
import FreeWindows.Rtl.Sha
import FreeWindows.Rtl.SrwLock.Runs
import FreeWindows.Rtl.Time
import FreeWindows.Sync.Abandoned
import FreeWindows.Sync.LostWakeup
import FreeWindows.Token.Adjust
import FreeWindows.Token.CreateRequest
import FreeWindows.Token.Filter
import FreeWindows.Token.Labels
import FreeWindows.Token.Maximum
import FreeWindows.User.Handles
import FreeWindows.Virtual.Runs
