import Innodb.TerminationSound
import Innodb.NodeAddrSound
import Innodb.RecordsWalkSound
import Innodb.HeadersSound
import Innodb.ByteOrderSound
import Innodb.DirectorySound
import Innodb.InodeEntriesSound
import Innodb.DescriptorsSound
import Innodb.NestedSound
import Innodb.TableReaderSound
import Innodb.SpaceSound
import Innodb.FailuresSound
import Innodb.SessionSound
import Innodb.PagingSound
import Innodb.ContentSound
import Innodb.RecordsDumpSound
import Innodb.IteratorsSound
