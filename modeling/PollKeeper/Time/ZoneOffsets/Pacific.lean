import PollKeeper.Time.OffsetHistory

/-!
# Offsets of zones in Australia and the Pacific
-/

namespace PollKeeper.Time.ZoneOffsets

open OffsetHistory

def lordHowe : OffsetHistory where
  first := 38180
  changes :=
    alternating 36000 37800 [-2364114980, 352216800] ++
    alternating 41400 37800
      [372785400, 384273000, 404839800, 415722600, 436289400, 447172200, 467739000, 478621800] ++
    alternating 39600 37800
      [499188600, 511282800, 530033400, 542732400, 562087800, 574786800, 594142200, 606236400,
       625591800, 636476400, 657041400, 667926000, 688491000, 699375600, 719940600, 731430000,
       751995000, 762879600, 783444600, 794329200, 814894200, 828198000, 846343800, 859647600,
       877793400, 891097200, 909243000, 922546800, 941297400, 953996400, 967303800, 985446000,
       1004196600, 1017500400, 1035646200, 1048950000, 1067095800, 1080399600, 1099150200,
       1111849200, 1130599800, 1143903600, 1162049400, 1174748400, 1193499000, 1207407600,
       1223134200, 1238857200, 1254583800, 1270306800, 1286033400, 1301756400, 1317483000,
       1333206000, 1349537400, 1365260400, 1380987000, 1396710000, 1412436600, 1428159600,
       1443886200, 1459609200, 1475335800, 1491058800, 1506785400, 1522508400, 1538839800,
       1554562800, 1570289400, 1586012400, 1601739000, 1617462000, 1633188600, 1648911600,
       1664638200, 1680361200, 1696087800, 1712415600, 1728142200, 1743865200, 1759591800,
       1775314800, 1791041400, 1806764400, 1822491000, 1838214000, 1853940600, 1869663600,
       1885995000, 1901718000, 1917444600, 1933167600, 1948894200, 1964617200, 1980343800,
       1996066800, 2011793400, 2027516400, 2043243000, 2058966000, 2075297400, 2091020400,
       2106747000, 2122470000, 2138196600, 2153919600, 2169646200, 2185369200, 2201095800,
       2216818800, 2233150200, 2248873200, 2264599800, 2280322800, 2296049400, 2311772400,
       2327499000, 2343222000, 2358948600, 2374671600, 2390398200, 2406121200, 2422452600,
       2438175600, 2453902200, 2469625200, 2485351800, 2501074800, 2516801400, 2532524400,
       2548251000, 2563974000, 2579700600, 2596028400, 2611755000, 2627478000, 2643204600,
       2658927600, 2674654200, 2690377200, 2706103800, 2721826800, 2737553400, 2753276400,
       2769607800, 2785330800, 2801057400, 2816780400, 2832507000, 2848230000, 2863956600,
       2879679600, 2895406200, 2911129200, 2926855800, 2942578800, 2958910200, 2974633200,
       2990359800, 3006082800, 3021809400, 3037532400, 3053259000, 3068982000, 3084708600,
       3100431600, 3116763000, 3132486000, 3148212600, 3163935600, 3179662200, 3195385200,
       3211111800, 3226834800, 3242561400, 3258284400, 3274011000, 3289734000, 3306065400,
       3321788400, 3337515000, 3353238000, 3368964600, 3384687600, 3400414200, 3416137200,
       3431863800, 3447586800, 3463313400, 3479641200, 3495367800, 3511090800, 3526817400,
       3542540400, 3558267000, 3573990000, 3589716600, 3605439600, 3621166200, 3636889200,
       3653220600, 3668943600, 3684670200, 3700393200, 3716119800, 3731842800, 3747569400,
       3763292400, 3779019000, 3794742000, 3810468600, 3826191600, 3842523000, 3858246000,
       3873972600, 3889695600, 3905422200, 3921145200, 3936871800, 3952594800, 3968321400,
       3984044400, 4000375800, 4016098800, 4031825400, 4047548400, 4063275000, 4078998000,
       4094724600]

def chatham : OffsetHistory where
  first := 44028
  changes :=
    alternating 44100 45900 [-3192437628, -757426500] ++
    alternating 49500 45900
      [152632800, 162309600, 183477600, 194968800, 215532000, 226418400, 246981600, 257868000,
       278431200, 289317600, 309880800, 320767200, 341330400, 352216800, 372780000, 384271200,
       404834400, 415720800, 436284000, 447170400, 467733600, 478620000, 499183200, 510069600,
       530632800, 541519200, 562082400, 573573600, 594136800, 605023200, 623772000, 637682400,
       655221600, 669132000, 686671200, 700581600, 718120800, 732636000, 749570400, 764085600,
       781020000, 795535200, 812469600, 826984800, 844524000, 858434400, 875973600, 889884000,
       907423200, 921938400, 938872800, 953388000, 970322400, 984837600, 1002376800, 1016287200,
       1033826400, 1047736800, 1065276000, 1079791200, 1096725600, 1111240800, 1128175200,
       1142690400, 1159624800, 1174140000, 1191074400, 1207404000, 1222524000, 1238853600,
       1253973600, 1270303200, 1285423200, 1301752800, 1316872800, 1333202400, 1348927200,
       1365256800, 1380376800, 1396706400, 1411826400, 1428156000, 1443276000, 1459605600,
       1474725600, 1491055200, 1506175200, 1522504800, 1538229600, 1554559200, 1569679200,
       1586008800, 1601128800, 1617458400, 1632578400, 1648908000, 1664028000, 1680357600,
       1695477600, 1712412000, 1727532000, 1743861600, 1758981600, 1775311200, 1790431200,
       1806760800, 1821880800, 1838210400, 1853330400, 1869660000, 1885384800, 1901714400,
       1916834400, 1933164000, 1948284000, 1964613600, 1979733600, 1996063200, 2011183200,
       2027512800, 2042632800, 2058962400, 2074687200, 2091016800, 2106136800, 2122466400,
       2137586400, 2153916000, 2169036000, 2185365600, 2200485600, 2216815200, 2232540000,
       2248869600, 2263989600, 2280319200, 2295439200, 2311768800, 2326888800, 2343218400,
       2358338400, 2374668000, 2389788000, 2406117600, 2421842400, 2438172000, 2453292000,
       2469621600, 2484741600, 2501071200, 2516191200, 2532520800, 2547640800, 2563970400,
       2579090400, 2596024800, 2611144800, 2627474400, 2642594400, 2658924000, 2674044000,
       2690373600, 2705493600, 2721823200, 2736943200, 2753272800, 2768997600, 2785327200,
       2800447200, 2816776800, 2831896800, 2848226400, 2863346400, 2879676000, 2894796000,
       2911125600, 2926245600, 2942575200, 2958300000, 2974629600, 2989749600, 3006079200,
       3021199200, 3037528800, 3052648800, 3068978400, 3084098400, 3100428000, 3116152800,
       3132482400, 3147602400, 3163932000, 3179052000, 3195381600, 3210501600, 3226831200,
       3241951200, 3258280800, 3273400800, 3289730400, 3305455200, 3321784800, 3336904800,
       3353234400, 3368354400, 3384684000, 3399804000, 3416133600, 3431253600, 3447583200,
       3462703200, 3479637600, 3494757600, 3511087200, 3526207200, 3542536800, 3557656800,
       3573986400, 3589106400, 3605436000, 3620556000, 3636885600, 3652610400, 3668940000,
       3684060000, 3700389600, 3715509600, 3731839200, 3746959200, 3763288800, 3778408800,
       3794738400, 3809858400, 3826188000, 3841912800, 3858242400, 3873362400, 3889692000,
       3904812000, 3921141600, 3936261600, 3952591200, 3967711200, 3984040800, 3999765600,
       4016095200, 4031215200, 4047544800, 4062664800, 4078994400, 4094114400]

def apia : OffsetHistory where
  first := 45184
  changes :=
    alternating (-41216) (-41400) [-2445424384, -1861878784] ++
    alternating (-39600) (-36000) [-631110600, 1285498800, 1301752800, 1316872800] ++
    alternating 50400 46800
      [1325239200, 1333202400, 1348927200, 1365256800, 1380376800, 1396706400, 1411826400,
       1428156000, 1443276000, 1459605600, 1474725600, 1491055200, 1506175200, 1522504800,
       1538229600, 1554559200, 1569679200, 1586008800, 1601128800, 1617458400]

def kiritimati : OffsetHistory where
  first := -37760
  changes :=
    alternating (-38400) (-36000) [-2177415040, 307622400] ++
    alternating 50400 50400 [788868000]

end PollKeeper.Time.ZoneOffsets
